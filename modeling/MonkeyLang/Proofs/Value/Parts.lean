import MonkeyLang.Value.Operator

/-!
What values consist of, and where the values come from that operators give: a sort of values which
plain ones all belong to is not left by them, except for faults.
-/

namespace MonkeyLang

namespace OrderedMap

variable {κ α : Type} [DecidableEq κ]

theorem mem_of_find? {key : κ} {map : OrderedMap κ α} {a : α} (h : map.find? key = some a) :
    (key, a) ∈ map := by
  induction map with
  | nil => cases h
  | cons entry others ih =>
    obtain ⟨k, b⟩ := entry
    rw [find?] at h
    split at h
    · next hk =>
      subst hk
      cases h
      exact List.mem_cons_self ..
    · exact List.mem_cons_of_mem _ (ih h)

theorem forall_mem_insert {P : κ × α → Prop} {map : OrderedMap κ α} {key : κ} {a : α}
    (h : P (key, a)) (hmap : ∀ entry ∈ map, P entry) : ∀ entry ∈ map.insert key a, P entry := by
  induction map with
  | nil => exact List.forall_mem_singleton.mpr h
  | cons entry others ih =>
    obtain ⟨k, b⟩ := entry
    obtain ⟨hentry, hothers⟩ := List.forall_mem_cons.mp hmap
    rw [insert]
    split
    · exact List.forall_mem_cons.mpr ⟨h, hothers⟩
    · exact List.forall_mem_cons.mpr ⟨hentry, ih hothers⟩

end OrderedMap

namespace Value

/-- The values that stand directly in a value. -/
def parts : Value → List Value
  | array _ elements => elements
  | hash _ entries => entries.flatMap fun entry ↦ [entry.2.1, entry.2.2]
  | returned _ value => [value]
  | _ => []

theorem mem_parts_hash {id : Nat} {entries : List (HashKey × Value × Value)} {value : Value} :
    value ∈ (hash id entries).parts ↔
      ∃ entry ∈ entries, value = entry.2.1 ∨ value = entry.2.2 := by
  simp only [parts, List.mem_flatMap, List.mem_cons, List.not_mem_nil, or_false]

section Induction

-- the assumption is that of a mutual induction, of which not every part takes it
set_option linter.unusedSectionVars false

variable {motive : Value → Prop}
  (h : ∀ value : Value, (∀ part ∈ value.parts, motive part) → motive value)

include h

mutual

/-- What holds of every value of whose parts it holds, holds of all values. -/
theorem induction_parts : (value : Value) → motive value
  | .array _ elements => h _ (induction_elements elements)
  | .hash _ entries => h _ fun part hpart ↦ by
    obtain ⟨entry, hentry, rfl | rfl⟩ := mem_parts_hash.mp hpart
    · exact (induction_entries entries entry hentry).1
    · exact (induction_entries entries entry hentry).2
  | .returned _ value => h _ fun part hpart ↦ by
    rw [List.mem_singleton.mp hpart]
    exact induction_parts value
  | .integer _ | .boolean _ | .null | .string _ | .function .. | .builtin _ | .error _ =>
    h _ fun _ hpart ↦ absurd hpart List.not_mem_nil

theorem induction_elements : (elements : List Value) → ∀ value ∈ elements, motive value
  | [] => by simp
  | value :: others =>
    List.forall_mem_cons.mpr ⟨induction_parts value, induction_elements others⟩

theorem induction_entries : (entries : List (HashKey × Value × Value)) →
    ∀ entry ∈ entries, motive entry.2.1 ∧ motive entry.2.2
  | [] => by simp
  | (_, key, value) :: others => List.forall_mem_cons.mpr
    ⟨⟨induction_parts key, induction_parts value⟩, induction_entries others⟩

end

end Induction

/-- The environment in which a function was made. -/
def scope? : Value → Option Address
  | function _ _ _ env => some env
  | _ => none

/-- The number of creation of a value. -/
def id? : Value → Option Nat
  | array id _ | hash id _ | function id .. | returned id _ => some id
  | _ => none

def isReturned : Value → Bool
  | returned .. => true
  | _ => false

theorem unwrap_eq_self {value : Value} (h : value.isReturned = false) : value.unwrap = value := by
  cases value with
  | returned => cases h
  | _ => rfl

/-- Every value that stands in a value, itself included, satisfies `q` and, if it is a function, was
made in an environment of `E`. -/
inductive Within (E : Address → Prop) (q : Value → Prop) : Value → Prop
  | intro {value : Value} : q value → (∀ env ∈ value.scope?, E env) →
      (∀ part ∈ value.parts, Within E q part) → Within E q value

namespace Within

variable {E : Address → Prop} {q : Value → Prop} {value : Value}

theorem self (h : value.Within E q) : q value := by
  cases h with
  | intro hq => exact hq

theorem scope {env : Address} (h : value.Within E q) (henv : env ∈ value.scope?) : E env := by
  cases h with
  | intro _ hscope => exact hscope env henv

theorem of_mem {inner : Value} (h : value.Within E q) (hm : inner ∈ value.parts) :
    inner.Within E q := by
  cases h with
  | intro _ _ hparts => exact hparts inner hm

theorem of_forall (hE : ∀ env, E env) (hq : ∀ inner, q inner) (value : Value) :
    value.Within E q := by
  induction value using Value.induction_parts with
  | h value ih => exact .intro (hq value) (fun env _ ↦ hE env) ih

theorem array {id : Nat} {elements : List Value} (hq : q (.array id elements))
    (h : ∀ element ∈ elements, element.Within E q) : (Value.array id elements).Within E q :=
  .intro hq (by simp [scope?]) h

theorem hash {id : Nat} {entries : List (HashKey × Value × Value)} (hq : q (.hash id entries))
    (h : ∀ entry ∈ entries, entry.2.1.Within E q ∧ entry.2.2.Within E q) :
    (Value.hash id entries).Within E q := by
  refine .intro hq (by simp [scope?]) fun part hpart ↦ ?_
  obtain ⟨entry, hm, rfl | rfl⟩ := mem_parts_hash.mp hpart
  · exact (h entry hm).1
  · exact (h entry hm).2

theorem function {id : Nat} {params : List Node} {body : Node} {env : Address}
    (hq : q (.function id params body env)) (henv : E env) :
    (Value.function id params body env).Within E q :=
  .intro hq (fun _ h ↦ Option.some.inj h ▸ henv) (by simp [parts])

end Within

/-- The results of operators. -/
inductive Computed : Value → Prop
  | error {fault : Fault} : Computed (.error fault)
  | integer {n : Int} : Computed (.integer (Word.wrap n))
  | boolean {b : Bool} : Computed (.boolean b)
  | string {text : String} : Computed (.string text)

theorem computed_applyPrefix (op : String) (operand : Value) :
    (applyPrefix op operand).Computed := by
  unfold applyPrefix
  split
  · exact .boolean
  · exact .integer
  · exact .error

theorem computed_integerInfix (op : String) (a b : Int) : (integerInfix op a b).Computed := by
  unfold integerInfix
  split
  case h_1 | h_2 | h_3 => exact .integer
  case h_4 =>
    split
    · exact .error
    · exact .integer
  case h_5 | h_6 | h_7 | h_8 => exact .boolean
  case h_9 => exact .error

theorem computed_applyInfix (op : String) (left right : Value) :
    (applyInfix op left right).Computed := by
  unfold applyInfix
  split
  · exact computed_integerInfix _ _ _
  · unfold stringInfix
    split
    · exact .string
    · exact .error
  · unfold otherInfix
    split
    · exact .boolean
    · split
      · exact .boolean
      · split <;> exact .error

/-- What an index gives is a fault, null or a part of the collection. -/
theorem index_cases (collection key : Value) :
    (∃ fault, index collection key = .error fault) ∨ index collection key = .null ∨
      index collection key ∈ collection.parts := by
  unfold index
  split
  · next elements i =>
    refine .inr ?_
    unfold element
    split
    · exact .inl rfl
    · cases hfound : elements[i.toNat]? with
      | none => exact .inl rfl
      | some found => exact .inr (List.mem_of_getElem? hfound)
  · next id entries =>
    unfold entry
    split
    · exact .inl ⟨_, rfl⟩
    · next k _ =>
      refine .inr ?_
      cases hfound : OrderedMap.find? k entries with
      | none => exact .inl rfl
      | some pair =>
        exact .inr (mem_parts_hash.mpr ⟨(k, pair), OrderedMap.mem_of_find? hfound, .inr rfl⟩)
  · exact .inl ⟨_, rfl⟩

section Within

/-- Whether a value is neither a fault, a wrapped result nor a function. -/
def isPlain : Value → Bool
  | error _ | returned .. | function .. => false
  | _ => true

variable {E : Address → Prop} {q : Value → Prop} {value : Value}
  (hplain : ∀ value : Value, value.isPlain = true → q value)

include hplain

theorem Within.plain (h : value.isPlain = true) (hparts : ∀ part ∈ value.parts, part.Within E q) :
    value.Within E q := by
  refine .intro (hplain value h) (fun env henv ↦ ?_) hparts
  cases value with
  | function => cases h
  | _ => cases henv

theorem Computed.within (h : value.Computed) :
    (∃ fault, value = .error fault) ∨ value.Within E q := by
  cases h with
  | error => exact .inl ⟨_, rfl⟩
  | integer | boolean | string => exact .inr (.plain hplain rfl (by simp [parts]))

theorem within_index {collection : Value} (h : collection.Within E q) (key : Value) :
    (∃ fault, index collection key = .error fault) ∨ (index collection key).Within E q := by
  rcases index_cases collection key with hi | hi | hi
  · exact .inl hi
  · rw [hi]
    exact .inr (.plain hplain rfl (by simp [parts]))
  · exact .inr (h.of_mem hi)

end Within

end Value

end MonkeyLang
