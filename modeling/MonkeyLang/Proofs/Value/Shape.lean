import MonkeyLang.Proofs.Invariant
import MonkeyLang.Proofs.Node.Nested
import MonkeyLang.Reader.Program

/-!
What a value is apart from its identity, and the values that have a source text: those whose text
is one.
-/

namespace MonkeyLang

mutual

/-- The value with zero in place of all numbers of creation and environments, and with the end token
in place of all tokens in functions. -/
def Value.shape : Value → Value
  | .array _ elements => .array 0 (shapes elements)
  | .hash _ entries => .hash 0 (entryShapes entries)
  | .function _ params body _ => .function 0 (nodesUntoken params) body.untoken 0
  | .returned _ value => .returned 0 value.shape
  | .integer n => .integer n
  | .boolean b => .boolean b
  | .null => .null
  | .string text => .string text
  | .builtin function => .builtin function
  | .error fault => .error fault

def shapes : List Value → List Value
  | [] => []
  | value :: others => value.shape :: shapes others

def entryShapes : List (HashKey × Value × Value) → List (HashKey × Value × Value)
  | [] => []
  | (k, key, value) :: others => (k, key.shape, value.shape) :: entryShapes others

end

theorem shapes_eq_map (values : List Value) : shapes values = values.map Value.shape := by
  induction values with
  | nil => rfl
  | cons value others ih => rw [shapes, ih, List.map_cons]

theorem entryShapes_eq_map (entries : List (HashKey × Value × Value)) :
    entryShapes entries = entries.map (Prod.map id (Prod.map Value.shape Value.shape)) := by
  induction entries with
  | nil => rfl
  | cons entry others ih =>
    obtain ⟨k, key, value⟩ := entry
    rw [entryShapes, ih, List.map_cons]
    rfl

theorem inspectAll_eq_map (values : List Value) : inspectAll values = values.map Value.inspect := by
  induction values with
  | nil => rfl
  | cons value others ih => rw [inspectAll, ih, List.map_cons]

/-- The text of an entry of a hash. -/
def entryText (entry : HashKey × Value × Value) : String :=
  entry.2.1.inspect ++ ": " ++ entry.2.2.inspect

theorem inspectEntries_eq_map (entries : List (HashKey × Value × Value)) :
    inspectEntries entries = entries.map entryText := by
  induction entries with
  | nil => rfl
  | cons entry others ih =>
    obtain ⟨k, key, value⟩ := entry
    rw [inspectEntries, ih, List.map_cons, entryText]

namespace Value

variable {value other : Value}

theorem isError_shape (value : Value) : value.shape.isError = value.isError := by
  cases value <;> rfl

theorem endsSequence_shape (value : Value) : value.shape.endsSequence = value.endsSequence := by
  cases value <;> rfl

theorem hashKey?_shape (value : Value) : value.shape.hashKey? = value.hashKey? := by
  cases value <;> rfl

theorem isError_of_shape (h : other.shape = value.shape) : other.isError = value.isError := by
  rw [← isError_shape, h, isError_shape]

theorem endsSequence_of_shape (h : other.shape = value.shape) :
    other.endsSequence = value.endsSequence := by
  rw [← endsSequence_shape, h, endsSequence_shape]

theorem hashKey?_of_shape (h : other.shape = value.shape) : other.hashKey? = value.hashKey? := by
  rw [← hashKey?_shape, h, hashKey?_shape]

/-- The values with a source text: numbers that are literals up to their sign, truth values,
functions from any text, and arrays and hashes of such values. Only numbers and truth values are
keys in them. -/
inductive Legible : Value → Prop
  | integer {n : Int} : -Reader.maxInteger ≤ n → n ≤ Reader.maxInteger → Legible (.integer n)
  | boolean {b : Bool} : Legible (.boolean b)
  | array {id : Nat} {elements : List Value} :
      (∀ element ∈ elements, Legible element) → Legible (.array id elements)
  | hash {id : Nat} {entries : List (HashKey × Value × Value)} :
      Keyed entries → (∀ entry ∈ entries, Legible entry.2.1) →
      (∀ entry ∈ entries, Legible entry.2.2) → Legible (.hash id entries)
  | function {id : Nat} {text : String} {token : Token} {params : List Node} {body : Node}
      {env : Address} : Node.fn token params body ∈ (parse text).program.nested →
      Legible (.function id params body env)

theorem Legible.isError (h : value.Legible) : value.isError = false := by
  cases h <;> rfl

theorem Legible.endsSequence (h : value.Legible) : value.endsSequence = false := by
  cases h <;> rfl

end Value

end MonkeyLang
