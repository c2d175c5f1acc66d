import MonkeyLang.Proofs.Value.Like

/-!
All the values that stand in a value, in a list.
-/

namespace MonkeyLang

mutual

/-- The values that stand in a value at any depth, itself first. -/
def Value.nested : Value → List Value
  | .array id elements => .array id elements :: valuesNested elements
  | .hash id entries => .hash id entries :: entriesNested entries
  | .returned id value => .returned id value :: value.nested
  | value => [value]

def valuesNested : List Value → List Value
  | [] => []
  | value :: others => value.nested ++ valuesNested others

def entriesNested : List (HashKey × Value × Value) → List Value
  | [] => []
  | (_, key, value) :: others => key.nested ++ value.nested ++ entriesNested others

end

namespace Value

theorem valuesNested_eq (values : List Value) : valuesNested values = values.flatMap nested := by
  induction values with
  | nil => rfl
  | cons value others ih => rw [valuesNested, ih, List.flatMap_cons]

theorem entriesNested_eq (entries : List (HashKey × Value × Value)) :
    entriesNested entries =
      (entries.flatMap fun entry ↦ [entry.2.1, entry.2.2]).flatMap nested := by
  induction entries with
  | nil => rfl
  | cons entry others ih =>
    obtain ⟨k, key, value⟩ := entry
    rw [entriesNested, ih]
    simp

theorem nested_eq (value : Value) : value.nested = value :: value.parts.flatMap nested := by
  cases value <;> simp [nested, parts, valuesNested_eq, entriesNested_eq]

theorem mem_nested {value inner : Value} :
    inner ∈ value.nested ↔ inner = value ∨ ∃ part ∈ value.parts, inner ∈ part.nested := by
  rw [nested_eq, List.mem_cons, List.mem_flatMap]

theorem self_mem_nested (value : Value) : value ∈ value.nested := mem_nested.mpr (.inl rfl)

theorem part_mem_nested {outer value inner : Value} (h : value ∈ outer.nested)
    (hm : inner ∈ value.parts) : inner ∈ outer.nested := by
  induction outer using Value.induction_parts with
  | h outer ih =>
    rcases mem_nested.mp h with rfl | ⟨part, hpart, h⟩
    · exact mem_nested.mpr (.inr ⟨inner, hm, inner.self_mem_nested⟩)
    · exact mem_nested.mpr (.inr ⟨part, hpart, ih part hpart h⟩)

theorem within_iff_nested {E : Address → Prop} {q : Value → Prop} {value : Value} :
    value.Within E q ↔ ∀ inner ∈ value.nested, q inner ∧ ∀ env ∈ inner.scope?, E env := by
  induction value using Value.induction_parts with
  | h value ih =>
    constructor
    · intro h inner hm
      rcases mem_nested.mp hm with rfl | ⟨part, hpart, hm⟩
      · exact ⟨h.self, fun env henv ↦ h.scope henv⟩
      · exact (ih part hpart).mp (h.of_mem hpart) inner hm
    · intro h
      obtain ⟨hself, hscope⟩ := h value value.self_mem_nested
      refine .intro hself hscope fun part hpart ↦ (ih part hpart).mpr fun inner hm ↦ ?_
      exact h inner (mem_nested.mpr (.inr ⟨part, hpart, hm⟩))

theorem Within.of_nested {E : Address → Prop} {q : Value → Prop} {value inner : Value}
    (h : value.Within E q) (hm : inner ∈ value.nested) : inner.Within E q := by
  induction value using Value.induction_parts with
  | h value ih =>
    rcases mem_nested.mp hm with rfl | ⟨part, hpart, hm⟩
    · exact h
    · exact ih part hpart (h.of_mem hpart) hm

theorem Within.mono {E E' : Address → Prop} {q q' : Value → Prop} {value : Value}
    (h : value.Within E q) (hE : ∀ env, E env → E' env) (hq : ∀ inner, q inner → q' inner) :
    value.Within E' q' := by
  rw [within_iff_nested] at h ⊢
  intro inner hm
  obtain ⟨hself, hscope⟩ := h inner hm
  exact ⟨hq inner hself, fun env henv ↦ hE env (hscope env henv)⟩

namespace Like

variable {L : Likeness} {value value' : Value}

theorem parts (h : value.Like L value') : List.Forall₂ (Like L) value.parts value'.parts := by
  cases h with
  | array _ h => exact h
  | hash _ h =>
    refine List.rel_flatMap h fun entry entry' hentry ↦ ?_
    obtain ⟨_, hk, hv⟩ := hentry
    exact .cons hk (.cons hv .nil)
  | returned _ h => exact .cons h .nil
  | _ => exact .nil

/-- In values that are alike there stand values that are alike, in the same places. -/
theorem nested (h : value.Like L value') : List.Forall₂ (Like L) value.nested value'.nested := by
  induction value using Value.induction_parts generalizing value' with
  | h value ih =>
    rw [nested_eq, nested_eq]
    have hparts : List.Forall₂ (fun part part' ↦ List.Forall₂ (Like L) part.nested part'.nested)
        value.parts value'.parts := forall₂_imp_of_mem h.parts fun part hpart _ ↦ ih part hpart
    exact .cons h (List.rel_flatMap hparts fun _ _ ↦ id)

end Like

end Value

end MonkeyLang
