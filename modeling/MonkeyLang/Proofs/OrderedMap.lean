import MonkeyLang.OrderedMap
import Mathlib.Data.List.Induction
import Mathlib.Data.List.Nodup

/-!
Maps that are filled entry by entry: their keys come in the order in which they were first put in,
and at each stands what was put in last.
-/

namespace MonkeyLang

namespace OrderedMap

variable {κ α : Type} [DecidableEq κ] {listed : List (κ × α)} {map other : OrderedMap κ α}

theorem nodup_keys_insert (h : map.keys.Nodup) (key : κ) (a : α) :
    (map.insert key a).keys.Nodup := by
  rw [keys_insert]
  split
  · exact h
  · next hnew =>
    rw [List.nodup_middle, List.append_nil]
    exact h.cons hnew

theorem insert_of_notMem {key : κ} (h : key ∉ map.keys) (a : α) :
    map.insert key a = map ++ [(key, a)] := by
  induction map with
  | nil => rfl
  | cons entry others ih =>
    obtain ⟨hne, hothers⟩ := not_or.mp (mt List.mem_cons.mpr h)
    rw [insert, if_neg (Ne.symm hne), ih hothers, List.cons_append]

/-- What a list has at a key last. -/
def last? (key : κ) (listed : List (κ × α)) : Option α :=
  (listed.filter fun entry ↦ entry.1 = key).getLast?.map Prod.snd

theorem last?_concat (listed : List (κ × α)) (key k : κ) (a : α) :
    last? key (listed ++ [(k, a)]) = if k = key then some a else last? key listed := by
  rw [last?, List.filter_append, List.getLast?_append]
  by_cases hk : k = key
  · rw [if_pos hk, List.filter_singleton, decide_eq_true hk]
    rfl
  · rw [if_neg hk, List.filter_singleton, decide_eq_false hk]
    rfl

/-- What is listed at a key is the last there, if the key is not listed behind it. -/
theorem last?_of_notMem {before later : List (κ × α)} {key : κ} (h : key ∉ later.map Prod.fst)
    (a : α) : last? key (before ++ (key, a) :: later) = some a := by
  have hlater : later.filter (fun entry ↦ entry.1 = key) = [] := by
    refine List.filter_eq_nil_iff.mpr fun entry hm ↦ ?_
    exact fun hkey ↦ h (List.mem_map.mpr ⟨entry, hm, of_decide_eq_true hkey⟩)
  rw [last?, List.filter_append, List.filter_cons, if_pos (decide_eq_true rfl), hlater,
    List.getLast?_concat]
  rfl

theorem last?_eq_none {key : κ} : last? key listed = none ↔ key ∉ listed.map Prod.fst := by
  rw [last?, Option.map_eq_none_iff, List.getLast?_eq_none_iff, List.filter_eq_nil_iff]
  simp only [decide_eq_true_eq, List.mem_map, not_exists, not_and]

theorem find?_eq_none {key : κ} : map.find? key = none ↔ key ∉ map.keys := by
  induction map with
  | nil => exact ⟨fun _ ↦ List.not_mem_nil, fun _ ↦ rfl⟩
  | cons entry others ih =>
    obtain ⟨k, a⟩ := entry
    have hkeys : key ∈ keys ((k, a) :: others) ↔ key = k ∨ key ∈ keys others := List.mem_cons
    rw [find?, hkeys, not_or]
    split
    · next hk => exact ⟨fun h ↦ absurd h (Option.some_ne_none a), fun h ↦ absurd hk.symm h.1⟩
    · next hk => exact ih.trans ⟨fun h ↦ ⟨Ne.symm hk, h⟩, And.right⟩

/-- Maps with the same keys in the same order are the same if they have the same at every key. -/
theorem eq_of_find? (hdistinct : map.keys.Nodup) (hkeys : map.keys = other.keys)
    (hfind : ∀ key, map.find? key = other.find? key) : map = other := by
  induction map generalizing other with
  | nil => exact (List.map_eq_nil_iff.mp hkeys.symm).symm
  | cons entry map ih =>
    cases other with
    | nil => cases hkeys
    | cons entry' other =>
      obtain ⟨k, a⟩ := entry
      obtain ⟨k', b⟩ := entry'
      have hcons : k :: keys map = k' :: keys other := hkeys
      obtain ⟨rfl, htail⟩ := List.cons.inj hcons
      obtain ⟨hnew, hdistinct⟩ := List.nodup_cons.mp hdistinct
      have hhead := hfind k
      rw [find?, find?, if_pos rfl, if_pos rfl] at hhead
      obtain rfl := Option.some.inj hhead
      have hnew' : k ∉ keys other := htail ▸ hnew
      refine congrArg _ (ih hdistinct htail fun key ↦ ?_)
      by_cases hk : k = key
      · subst hk
        rw [find?_eq_none.mpr hnew, find?_eq_none.mpr hnew']
      · have hothers := hfind key
        rwa [find?, find?, if_neg hk, if_neg hk] at hothers

/-- The map has the keys of a list in the order of their first occurrence, each with what the list
has at it last. -/
structure Lists (listed : List (κ × α)) (map : OrderedMap κ α) : Prop where
  distinct : map.keys.Nodup
  keys : map.keys = (listed.map Prod.fst).eraseDups
  find? (key : κ) : map.find? key = last? key listed

namespace Lists

theorem nil : Lists ([] : List (κ × α)) [] := ⟨List.nodup_nil, rfl, fun _ ↦ rfl⟩

theorem mem_keys (h : Lists listed map) (key : κ) : key ∈ map.keys ↔ key ∈ listed.map Prod.fst := by
  rw [h.keys, List.mem_eraseDups]

theorem insert (h : Lists listed map) (key : κ) (a : α) :
    Lists (listed ++ [(key, a)]) (map.insert key a) where
  distinct := nodup_keys_insert h.distinct key a
  keys := by
    rw [keys_insert, List.map_append, List.eraseDups_append, ← h.keys]
    by_cases hk : key ∈ map.keys
    · have hlisted := (h.mem_keys key).mp hk
      rw [if_pos hk]
      simp [List.removeAll, hlisted]
    · have hlisted := mt (h.mem_keys key).mpr hk
      rw [if_neg hk]
      simp [List.removeAll, hlisted, List.eraseDups_cons]
  find? k := by rw [find?_insert, last?_concat, h.find?]

/-- A list that has no key twice is the map that it lists. -/
theorem of_nodup (h : (listed.map Prod.fst).Nodup) : Lists listed listed := by
  induction listed using List.reverseRecOn with
  | nil => exact nil
  | append_singleton listed entry ih =>
    obtain ⟨key, a⟩ := entry
    rw [List.map_append, List.map_singleton, List.nodup_append] at h
    obtain ⟨hlisted, _, hnew⟩ := h
    have hfresh : key ∉ OrderedMap.keys listed := fun hk ↦ hnew key hk key (by simp) rfl
    exact insert_of_notMem hfresh a ▸ (ih hlisted).insert key a

theorem unique (h : Lists listed map) (h' : Lists listed other) : map = other :=
  eq_of_find? h.distinct (h.keys.trans h'.keys.symm) fun key ↦
    (h.find? key).trans (h'.find? key).symm

end Lists

end OrderedMap

end MonkeyLang
