import MonkeyLang.Proofs.Evaluation.Hashes
import MonkeyLang.Proofs.Session.Sound

/-!
Hashes in sessions: whatever becomes of them, every pair stands at the key of its own key value, and
no two at the same key.
-/

namespace MonkeyLang

instance (entries : List (HashKey × Value × Value)) : Decidable (Keyed entries) :=
  decidable_of_iff ((∀ entry ∈ entries, entry.2.1.hashKey? = some entry.1) ∧
    (OrderedMap.keys entries).Nodup) ⟨fun h ↦ ⟨h.1, h.2⟩, fun h ↦ ⟨h.own, h.distinct⟩⟩

/-- The entries of the hashes that stand in the value. -/
def Value.tables (value : Value) : List (List (HashKey × Value × Value)) :=
  value.nested.filterMap fun
    | hash _ entries => some entries
    | _ => none

theorem Value.Stands.keyed {range : Int → Prop} {extent : Extent} {value : Value}
    (h : value.Stands range extent) : ∀ entries ∈ value.tables, Keyed entries := by
  intro entries hm
  obtain ⟨inner, hinner, hentries⟩ := List.mem_filterMap.mp hm
  have hproper := (h.of_nested hinner).self.2
  cases inner with
  | hash id table =>
    obtain rfl := Option.some.inj hentries
    exact hproper
  | _ => cases hentries

def Store.tables (store : Store) : List (List (HashKey × Value × Value)) :=
  store.values.flatMap Value.tables

theorem Store.Stands.keyed {range : Int → Prop} {created : Nat} {store : Store}
    (h : store.Stands range created) : ∀ entries ∈ store.tables, Keyed entries := by
  intro entries hm
  obtain ⟨value, hvalue, hm⟩ := List.mem_flatMap.mp hm
  exact (h.values hvalue).keyed entries hm

/-- A value is used if all hashes in it and in the frames are in order. -/
def Guard.keyed : Guard where
  measures _ := true
  admits machine value :=
    (machine.store.tables ++ value.tables).all fun entries ↦ decide (Keyed entries)

namespace Session

/-- The last pair at a key stands where the first one stood. -/
example :
    let text := "\x7b1: true, true: 2, 1: \"one\", \"1\": 3\x7d"
    (match run [.fresh, .text .standard 0 text] .initial with
      | .ok [.ok (some value)] _ => value.inspect
      | _ => "") = "\x7b1: one, true: 2, 1: 3\x7d" := by decide +kernel

end Session

end MonkeyLang
