/-!
Maps that list their keys in the order in which these were first inserted.
-/

namespace MonkeyLang

/-- A map as the list of its entries. The operations keep the keys different from one another. -/
abbrev OrderedMap (κ α : Type) : Type := List (κ × α)

namespace OrderedMap

variable {κ α : Type} [DecidableEq κ]

def find? (key : κ) : OrderedMap κ α → Option α
  | [] => none
  | (k, a) :: others => if k = key then some a else find? key others

/-- Puts a value at a key: in the place of the old value if there is one, and otherwise behind all
other entries. -/
def insert (key : κ) (value : α) : OrderedMap κ α → OrderedMap κ α
  | [] => [(key, value)]
  | (k, a) :: others => if k = key then (key, value) :: others else (k, a) :: insert key value others

def keys (map : OrderedMap κ α) : List κ := map.map Prod.fst

theorem find?_insert (map : OrderedMap κ α) (key other : κ) (value : α) :
    (map.insert key value).find? other = if key = other then some value else map.find? other := by
  induction map with
  | nil => rfl
  | cons entry others ih => simp only [insert]; split <;> grind [find?]

theorem keys_insert (map : OrderedMap κ α) (key : κ) (value : α) :
    (map.insert key value).keys = if key ∈ map.keys then map.keys else map.keys ++ [key] := by
  induction map with
  | nil => rfl
  | cons entry others ih => simp only [insert]; split <;> grind [keys]

end OrderedMap

end MonkeyLang
