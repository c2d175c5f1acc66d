import MonkeyLang.Proofs.Value.Parts

/-!
Values in which no fault stands, up to the environments of the functions in them, which are kept
inside a given set. The operators make such values or a fault out of such values.
-/

namespace MonkeyLang

/-- No fault stands in the value, and the functions in it were made in environments of `E`. -/
inductive Value.Faultless (E : Address → Prop) : Value → Prop
  | integer {value : Int} : Faultless E (.integer value)
  | boolean {value : Bool} : Faultless E (.boolean value)
  | null : Faultless E .null
  | string {text : String} : Faultless E (.string text)
  | array {id : Nat} {elements : List Value} :
      (∀ value ∈ elements, Faultless E value) → Faultless E (.array id elements)
  | hash {id : Nat} {entries : List (HashKey × Value × Value)} :
      (∀ entry ∈ entries, Faultless E entry.2.1) → (∀ entry ∈ entries, Faultless E entry.2.2) →
      Faultless E (.hash id entries)
  | function {id : Nat} {params : List Node} {body : Node} {env : Address} :
      E env → Faultless E (.function id params body env)
  | builtin {function : Builtin} : Faultless E (.builtin function)
  | returned {id : Nat} {value : Value} : Faultless E value → Faultless E (.returned id value)

namespace Value

variable {E : Address → Prop}

/-- The value is a fault, or no fault stands in it. -/
def Sound (E : Address → Prop) (value : Value) : Prop :=
  (∃ fault, value = .error fault) ∨ value.Faultless E

theorem Faultless.isError {value : Value} (h : value.Faultless E) : value.isError = false := by
  cases h <;> rfl

theorem Faultless.unwrap {value : Value} (h : value.Faultless E) : value.unwrap.Faultless E := by
  unfold Value.unwrap
  split
  · cases h with
    | returned h => exact h
  · exact h

theorem Faultless.getD {value : Option Value} (h : ∀ v ∈ value, v.Faultless E) :
    (value.getD .null).Faultless E := by
  cases value with
  | none => exact .null
  | some v => exact h v rfl

theorem faultless_iff_within {value : Value} :
    value.Faultless E ↔ value.Within E fun inner ↦ inner.isError = false := by
  constructor
  · intro h
    induction h with
    | array _ ih => exact .array rfl ih
    | hash _ _ hkeys hvalues => exact .hash rfl fun entry hm ↦ ⟨hkeys entry hm, hvalues entry hm⟩
    | function henv => exact .function rfl henv
    | returned _ ih =>
      exact .intro rfl (by simp [scope?]) fun part hm ↦ List.mem_singleton.mp hm ▸ ih
    | _ => exact .intro rfl (by simp [scope?]) (by simp [parts])
  · intro h
    induction h with
    | @intro value hfault hscope _ ih =>
      cases value with
      | integer => exact .integer
      | boolean => exact .boolean
      | null => exact .null
      | string => exact .string
      | builtin => exact .builtin
      | array => exact .array ih
      | hash =>
        exact .hash (fun entry hm ↦ ih _ (mem_parts_hash.mpr ⟨entry, hm, .inl rfl⟩))
          fun entry hm ↦ ih _ (mem_parts_hash.mpr ⟨entry, hm, .inr rfl⟩)
      | function => exact .function (hscope _ rfl)
      | returned => exact .returned (ih _ (List.mem_cons_self ..))
      | error => cases hfault

theorem sound_iff_within {value : Value} :
    value.Sound E ↔
      (∃ fault, value = .error fault) ∨ value.Within E fun inner ↦ inner.isError = false :=
  or_congr_right faultless_iff_within

theorem isError_of_isPlain (value : Value) (h : value.isPlain = true) : value.isError = false := by
  cases value with
  | error => cases h
  | _ => rfl

theorem Computed.sound {value : Value} (h : value.Computed) : value.Sound E :=
  sound_iff_within.mpr (h.within isError_of_isPlain)

theorem sound_index {collection : Value} (h : collection.Faultless E) (key : Value) :
    (index collection key).Sound E :=
  sound_iff_within.mpr (within_index isError_of_isPlain (faultless_iff_within.mp h) key)

end Value

end MonkeyLang
