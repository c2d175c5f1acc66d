import MonkeyLang.Proofs.Node.Nested
import MonkeyLang.Proofs.Session.Sound

/-!
No integer leaves the signed words of 64 bits: not in what frames bind, not in what is used on the
way, and not in the results. Lengths are not wrapped; they are words if what they are taken of is no
longer than that.
-/

namespace MonkeyLang

def HashKey.integer? : HashKey → Option Int
  | integer n => some n
  | _ => none

namespace Value

/-- Only an integer has an integer for a key. -/
theorem eq_integer_of_hashKey? {key : Value} {k : HashKey} {n : Int} (hkey : key.hashKey? = some k)
    (hn : k.integer? = some n) : key = .integer n := by
  cases key with
  | integer m =>
    obtain rfl := Option.some.inj hkey
    exact congrArg integer (Option.some.inj hn)
  | boolean | string =>
    obtain rfl := Option.some.inj hkey
    cases hn
  | _ => cases hkey

/-- The integers that stand in a value apart from its parts: its own one if it is an integer, those
of its keys if it is a hash, and the literals of its body if it is a function. -/
def ownNumbers : Value → List Int
  | integer n => [n]
  | hash _ entries => entries.filterMap fun entry ↦ entry.1.integer?
  | function _ _ body _ => body.literals
  | _ => []

/-- The integers that stand in a value at any depth. -/
def numbers (value : Value) : List Int := value.nested.flatMap ownNumbers

theorem Stands.signed {extent : Extent} {value : Value} (h : value.Stands Word.IsSigned extent) :
    ∀ n ∈ value.numbers, Word.IsSigned n := by
  intro n hn
  obtain ⟨inner, hinner, hn⟩ := List.mem_flatMap.mp hn
  have hwithin := h.of_nested hinner
  have hproper := hwithin.self.2
  cases inner with
  | integer m =>
    obtain rfl := List.mem_singleton.mp hn
    exact hproper
  | hash id entries =>
    obtain ⟨entry, hentry, hkey⟩ := List.mem_filterMap.mp hn
    have hvalue : entry.2.1 = .integer n := eq_integer_of_hashKey? (hproper.own entry hentry) hkey
    have hpart := hwithin.of_mem (mem_parts_hash.mpr ⟨entry, hentry, .inl rfl⟩)
    rw [hvalue] at hpart
    exact hpart.self.2
  | function id params body env =>
    have hliteral := hproper.2.literals n hn
    have hmax : Reader.maxInteger = 0x7fffffffffffffff := rfl
    exact ⟨by omega, by omega⟩
  | _ => cases hn

end Value

def Store.numbers (store : Store) : List Int := store.values.flatMap Value.numbers

theorem Store.Stands.signed {created : Nat} {store : Store}
    (h : store.Stands Word.IsSigned created) : ∀ n ∈ store.numbers, Word.IsSigned n := by
  intro n hn
  obtain ⟨value, hm, hn⟩ := List.mem_flatMap.mp hn
  exact (h.values hm).signed n hn

/-- Lengths are taken of what is no longer than the largest word, and a value is used if all
integers in it and in the frames are words. -/
def Guard.signed : Guard where
  measures n := n < 0x8000000000000000
  admits machine value :=
    (machine.store.numbers ++ value.numbers).all fun n ↦ decide (Word.IsSigned n)

namespace Session

/-- The largest literal and one more make the smallest word, also as a key. -/
example :
    let text := "\x7b9223372036854775807 + len([0]): fn() \x7b 7 \x7d\x7d"
    (match (guarded .signed [.fresh, .text .standard 0 text]).run .initial with
      | .ok (.ok [.ok (some value)]) _ => value.numbers
      | _ => []) = [-0x8000000000000000, -0x8000000000000000, 7] := by decide +kernel

end Session

end MonkeyLang
