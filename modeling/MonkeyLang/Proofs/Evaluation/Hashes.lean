import MonkeyLang.Proofs.Invariant

/-!
Hashes as maps over hash keys: which values share a key, what a literal makes of its pairs, and what
an index finds in it.
-/

namespace MonkeyLang

/-- The type of the values with the key. -/
def HashKey.type : HashKey → ValueType
  | integer _ => .integer
  | boolean _ => .boolean
  | string _ => .string

namespace Value

variable {a b : Value} {key : HashKey}

/-- Whether a value is an integer or a truth value, which a key keeps as it is. -/
def isScalar : Value → Bool
  | integer _ | boolean _ => true
  | _ => false

theorem hashKey?_eq_iff (ha : a.isScalar = true) (hb : b.isScalar = true) :
    a.hashKey? = b.hashKey? ↔ a = b := by
  cases a <;> cases ha <;> cases b <;> cases hb <;> simp [hashKey?]

theorem type_of_hashKey? (h : a.hashKey? = some key) : a.type = key.type := by
  cases a <;> cases h <;> rfl

/-- Equal values stand for the same key, if they stand for any. -/
theorem hashKey?_congr (h : a.equal b = true) : a.hashKey? = b.hashKey? := by
  cases a <;> cases b <;> simp_all [equal, identical, hashKey?]

theorem isError_of_hashKey? (h : a.hashKey? = some key) : a.isError = false := by
  cases a <;> cases h <;> rfl

end Value

namespace Evaluation

/-- Pairs of nodes are evaluated in turn. None of them gives a fault, and every key is one for a
hash; the pairs of their values are listed at these keys. -/
inductive Tabulates (registry : Registry) (apply : Value → List Value → Run Value) (env : Address) :
    List (Node × Node) → List (HashKey × Value × Value) → Machine → Machine → Prop
  | nil {machine} : Tabulates registry apply env [] [] machine machine
  | cons {keyNode valueNode pairs k key value listed machine between behind after} :
      expr registry apply env keyNode machine = .ok key between → key.hashKey? = some k →
      expr registry apply env valueNode between = .ok value behind → value.isError = false →
      Tabulates registry apply env pairs listed behind after →
      Tabulates registry apply env ((keyNode, valueNode) :: pairs) ((k, key, value) :: listed)
        machine after

variable {registry : Registry} {apply : Value → List Value → Run Value} {env : Address}
  {pairs : List (Node × Node)} {listed before : List (HashKey × Value × Value)}
  {table : List (HashKey × Value × Value)} {machine between after : Machine}

/-- The table of a literal lists the pairs evaluated so far. -/
theorem Tabulates.entries_eq (h : Tabulates registry apply env pairs listed machine after)
    (htable : OrderedMap.Lists before table) (hkeyed : Keyed table) : ∃ result,
      OrderedMap.Lists (before ++ listed) result ∧ Keyed result ∧
        entries registry apply env pairs table machine = .ok (.ok result) after := by
  induction h generalizing before table with
  | nil =>
    rw [List.append_nil]
    exact ⟨table, htable, hkeyed, rfl⟩
  | @cons _ _ _ k key value listed _ _ _ _ hkey hk hvalue hproper _ ih =>
    obtain ⟨result, hresult, hkeyed, hothers⟩ :=
      ih (htable.insert k (key, value)) (hkeyed.insert hk)
    rw [List.append_assoc] at hresult
    refine ⟨result, hresult, hkeyed, ?_⟩
    rw [entries, Run.run_operand hkey (Value.isError_of_hashKey? hk), hk]
    dsimp only
    rw [Run.run_operand hvalue hproper]
    exact hothers

theorem Tabulates.expr_eq (h : Tabulates registry apply env pairs listed machine after)
    (token : Token) : ∃ table, OrderedMap.Lists listed table ∧ Keyed table ∧
      expr registry apply env (.hash token pairs) machine =
        .ok (.hash after.created table) { after with created := after.created + 1 } := by
  obtain ⟨table, htable, hkeyed, hentries⟩ := h.entries_eq .nil .nil
  refine ⟨table, htable, hkeyed, ?_⟩
  rw [expr, Run.run_bind, hentries]
  rfl

/-- If the pairs cannot be listed, what comes of them is a fault. -/
theorem entries_cases {result : Except Value (List (HashKey × Value × Value))}
    (h : entries registry apply env pairs table machine = .ok result after) :
    (∃ fault, fault.isError = true ∧ result = .error fault) ∨
      ∃ listed, Tabulates registry apply env pairs listed machine after := by
  induction pairs generalizing table machine with
  | nil =>
    cases h
    exact .inr ⟨[], .nil⟩
  | cons pair pairs ih =>
    obtain ⟨keyNode, valueNode⟩ := pair
    rw [entries] at h
    rcases Run.operand_cases h with hfault | ⟨key, between, hkey, -, h⟩
    · exact .inl hfault
    · cases hk : key.hashKey? with
      | none =>
        rw [hk] at h
        cases h
        exact .inl ⟨_, rfl, rfl⟩
      | some k =>
        rw [hk] at h
        rcases Run.operand_cases h with hfault | ⟨value, behind, hvalue, hproper, h⟩
        · exact .inl hfault
        · rcases ih h with hfault | ⟨listed, hlisted⟩
          · exact .inl hfault
          · exact .inr ⟨_, .cons hkey hk hvalue hproper hlisted⟩

theorem expr_hash_cases {token : Token} {value : Value}
    (h : expr registry apply env (.hash token pairs) machine = .ok value after) :
    value.isError = true ∨
      ∃ listed between, Tabulates registry apply env pairs listed machine between := by
  rw [expr, Run.run_bind] at h
  cases hentries : entries registry apply env pairs [] machine with
  | error cause between =>
    rw [hentries] at h
    cases h
  | ok result between =>
    rw [hentries] at h
    rcases entries_cases hentries with ⟨fault, hfault, rfl⟩ | ⟨listed, hlisted⟩
    · cases h
      exact .inl hfault
    · exact .inr ⟨listed, between, hlisted⟩

theorem expr_index_hash {collection key : Node} {id : Nat} {value : Value} {k : HashKey}
    (token : Token)
    (hcollection : expr registry apply env collection machine = .ok (.hash id table) between)
    (hkey : expr registry apply env key between = .ok value after)
    (hk : value.hashKey? = some k) :
    expr registry apply env (.index token collection key) machine =
      .ok (((OrderedMap.find? k table).map Prod.snd).getD .null) after := by
  rw [expr, Run.run_operand hcollection rfl,
    Run.run_operand hkey (Value.isError_of_hashKey? hk), Value.index, Value.entry, hk]
  rfl

end Evaluation

/-- Which values stand for the same key. -/
structure KeyLaws : Prop where
  scalar (a b : Value) : a.isScalar = true → b.isScalar = true →
    (a.hashKey? = b.hashKey? ↔ a = b)
  type (a b : Value) (key : HashKey) :
    a.hashKey? = some key → b.hashKey? = some key → a.type = b.type
  equal (a b : Value) : a.equal b = true → a.hashKey? = b.hashKey?

theorem keyLaws : KeyLaws where
  scalar _ _ := Value.hashKey?_eq_iff
  type _ _ _ ha hb := (Value.type_of_hashKey? ha).trans (Value.type_of_hashKey? hb).symm
  equal _ _ := Value.hashKey?_congr

section Laws

variable (registry : Registry) (apply : Value → List Value → Run Value) (env : Address)

/-- Hashes are maps over the keys of their values. -/
structure HashLaws : Prop where
  /-- A literal lists its pairs, which decide alone on the order of its entries. -/
  literal {pairs : List (Node × Node)} {listed : List (HashKey × Value × Value)}
    {machine after : Machine} (token : Token) :
    Evaluation.Tabulates registry apply env pairs listed machine after →
      ∃ table, (∀ other, OrderedMap.Lists listed other ↔ other = table) ∧ Keyed table ∧
        Evaluation.expr registry apply env (.hash token pairs) machine =
          .ok (.hash after.created table) { after with created := after.created + 1 }
  /-- What else comes of a literal is a fault. -/
  fault {pairs : List (Node × Node)} {token : Token} {value : Value} {machine after : Machine} :
    Evaluation.expr registry apply env (.hash token pairs) machine = .ok value after →
      value.isError = true ∨
        ∃ listed between, Evaluation.Tabulates registry apply env pairs listed machine between
  /-- An index finds what has been listed last at its key. -/
  index {listed table : List (HashKey × Value × Value)} {collection key : Node} {id : Nat}
    {value : Value} {k : HashKey} {machine between after : Machine} (token : Token) :
    OrderedMap.Lists listed table →
      Evaluation.expr registry apply env collection machine = .ok (.hash id table) between →
      Evaluation.expr registry apply env key between = .ok value after →
      value.hashKey? = some k →
      Evaluation.expr registry apply env (.index token collection key) machine =
        .ok (((OrderedMap.last? k listed).map Prod.snd).getD .null) after

theorem hashLaws : HashLaws registry apply env where
  literal token h := by
    obtain ⟨table, htable, hkeyed, hexpr⟩ := h.expr_eq token
    refine ⟨table, fun other ↦ ⟨fun hother ↦ hother.unique htable, ?_⟩, hkeyed, hexpr⟩
    exact fun he ↦ he ▸ htable
  fault := Evaluation.expr_hash_cases
  index token hlists hcollection hkey hk := by
    rw [Evaluation.expr_index_hash token hcollection hkey hk, hlists.find?]

end Laws

end MonkeyLang
