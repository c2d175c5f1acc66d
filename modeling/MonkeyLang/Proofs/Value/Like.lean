import MonkeyLang.Builtin.Apply
import MonkeyLang.Proofs.Node.Like
import MonkeyLang.Proofs.Value.Parts

/-!
Values that differ in what two runs may differ: evaluation cannot tell them apart.
-/

namespace MonkeyLang

namespace OrderedMap

variable {κ α : Type} {r : α → α → Prop} {map map' : OrderedMap κ α}

/-- The maps have the same keys in the same order, and related values. -/
abbrev Like (r : α → α → Prop) : OrderedMap κ α → OrderedMap κ α → Prop :=
  List.Forall₂ (Prod.RProd Eq r)

theorem Like.keys (h : Like r map map') : map.keys = map'.keys := by
  rw [OrderedMap.keys, OrderedMap.keys, map_eq_map_iff_forall₂]
  exact forall₂_imp_of_mem h fun _ _ _ h ↦ by cases h; assumption

variable [DecidableEq κ]

theorem Like.find? (h : Like r map map') (key : κ) :
    Option.Rel r (map.find? key) (map'.find? key) := by
  induction h with
  | nil => exact .none
  | cons h _ ih =>
    cases h with
    | @intro k _ _ _ hk ha =>
      obtain rfl := hk
      rw [OrderedMap.find?, OrderedMap.find?]
      split
      · exact .some ha
      · exact ih

theorem Like.insert (h : Like r map map') (key : κ) {a a' : α} (ha : r a a') :
    Like r (map.insert key a) (map'.insert key a') := by
  induction h with
  | nil => exact .cons (.intro rfl ha) .nil
  | cons h hs ih =>
    cases h with
    | @intro k _ _ _ hk hold =>
      obtain rfl := hk
      rw [OrderedMap.insert, OrderedMap.insert]
      split
      · exact .cons (.intro rfl ha) hs
      · exact .cons (.intro rfl hold) ih

end OrderedMap

/-- The names that occur in the literal of a function. -/
def Value.ownNames : Value → List String
  | function _ params body _ => (Node.fn .eof params body).names
  | _ => []

/-- The values are of the same form, with contents that are alike. -/
inductive Value.Like (L : Likeness) : Value → Value → Prop
  | integer {n : Int} : Like L (.integer n) (.integer n)
  | boolean {b : Bool} : Like L (.boolean b) (.boolean b)
  | null : Like L .null .null
  | string {text : String} : Like L (.string text) (.string text)
  | array {id id' : Nat} {elements elements' : List Value} :
      L.ids id id' → List.Forall₂ (Like L) elements elements' →
      Like L (.array id elements) (.array id' elements')
  | hash {id id' : Nat} {entries entries' : List (HashKey × Value × Value)} :
      L.ids id id' →
      List.Forall₂ (Prod.RProd Eq (Prod.RProd (Like L) (Like L))) entries entries' →
      Like L (.hash id entries) (.hash id' entries')
  | function {id id' : Nat} {params params' : List Node} {body body' : Node}
      {env env' : Address} :
      L.ids id id' → (∀ param ∈ params, L.Shows param) →
      List.Forall₂ (Node.Like L) params params' → body.Like L body' → L.addresses env env' →
      Like L (.function id params body env) (.function id' params' body' env')
  | builtin {function : Builtin} : Like L (.builtin function) (.builtin function)
  | returned {id id' : Nat} {value value' : Value} :
      L.ids id id' → Like L value value' → Like L (.returned id value) (.returned id' value')
  | error {fault : Fault} : Like L (.error fault) (.error fault)

namespace Value.Like

variable {L : Likeness} {value value' a a' b b' : Value}

section Observations

theorem type (h : value.Like L value') : value.type = value'.type := by cases h <;> rfl

theorem isError (h : value.Like L value') : value.isError = value'.isError := by cases h <;> rfl

theorem endsSequence (h : value.Like L value') : value.endsSequence = value'.endsSequence := by
  cases h <;> rfl

theorem isTruthy (h : value.Like L value') : value.isTruthy = value'.isTruthy := by
  cases h <;> rfl

theorem hashKey? (h : value.Like L value') : value.hashKey? = value'.hashKey? := by
  cases h <;> rfl

theorem unwrap (h : value.Like L value') : value.unwrap.Like L value'.unwrap := by
  cases h with
  | returned _ h => exact h
  | integer => exact .integer
  | boolean => exact .boolean
  | null => exact .null
  | string => exact .string
  | array hid h => exact .array hid h
  | hash hid h => exact .hash hid h
  | function hid hs hp hb he => exact .function hid hs hp hb he
  | builtin => exact .builtin
  | error => exact .error

theorem getD {found found' : Option Value} (h : Option.Rel (Like L) found found') :
    (found.getD .null).Like L (found'.getD .null) := by
  cases h with
  | none => exact .null
  | some h => exact h

/-- Values that are alike are shown in the same way. -/
theorem inspect_eq (h : value.Like L value') : value.inspect = value'.inspect := by
  induction value using Value.induction_parts generalizing value' with
  | h value ih =>
    cases h with
    | array _ h =>
      have helements : ∀ {values values' : List Value}, List.Forall₂ (Like L) values values' →
          (∀ value ∈ values, ∀ {value'}, value.Like L value' → value.inspect = value'.inspect) →
          inspectAll values = inspectAll values' := by
        intro values values' h ih
        induction h with
        | nil => rfl
        | cons h _ ihs =>
          obtain ⟨hfirst, hothers⟩ := List.forall_mem_cons.mp ih
          rw [inspectAll, inspectAll, hfirst h, ihs hothers]
      rw [Value.inspect, Value.inspect, helements h ih]
    | hash _ h =>
      have hentries : ∀ {entries entries' : List (HashKey × Value × Value)},
          List.Forall₂ (Prod.RProd Eq (Prod.RProd (Like L) (Like L))) entries entries' →
          (∀ value ∈ entries.flatMap fun entry ↦ [entry.2.1, entry.2.2],
            ∀ {value'}, value.Like L value' → value.inspect = value'.inspect) →
          inspectEntries entries = inspectEntries entries' := by
        intro entries entries' h ih
        induction h with
        | nil => rfl
        | cons h _ ihs =>
          rw [List.flatMap_cons, List.forall_mem_append] at ih
          obtain ⟨hentry, hothers⟩ := ih
          obtain ⟨_, hk, hv⟩ := h
          rw [inspectEntries, inspectEntries, hentry _ (by simp) hk, hentry _ (by simp) hv,
            ihs hothers]
      rw [Value.inspect, Value.inspect, hentries h ih]
    | function _ _ hp hb _ =>
      simp only [Value.inspect, nodeTexts_eq_map, hb.text_eq, hb.enclosed,
        map_eq_map_iff_forall₂.mpr (hp.imp fun _ _ h ↦ h.text_eq)]
    | returned _ h => simp only [Value.inspect, ih _ (List.mem_cons_self ..) h]
    | _ => rfl

end Observations

section Operators

/-- Which of two values are one and the same depends on the numbers of creation alone. -/
theorem identical_eq (ha : a.Like L a') (hb : b.Like L b') :
    identical a b = identical a' b' := by
  have hids : ∀ {i i' j j' : Nat}, L.ids i i' → L.ids j j' → (i == j) = (i' == j') := by
    intro i i' j j' hi hj
    rw [Bool.eq_iff_iff, beq_iff_eq, beq_iff_eq, L.ids_iff hi hj]
  cases ha with
  | array hi _ | hash hi _ | function hi _ _ _ _ | returned hi _ =>
    cases hb <;> first | exact hids hi ‹_› | rfl
  | _ => cases hb <;> rfl

theorem of_computed (h : value.Computed) : value.Like L value := by
  cases h with
  | error => exact .error
  | integer => exact .integer
  | boolean => exact .boolean
  | string => exact .string

theorem applyPrefix (op : String) (h : value.Like L value') :
    (Value.applyPrefix op value).Like L (Value.applyPrefix op value') := by
  have hother : ∀ {v : Value}, v.type ≠ .integer → Value.applyPrefix op v =
      if op = "!" then .boolean (!v.isTruthy) else .error (.unknownPrefix op v.type) := by
    intro v hv
    unfold Value.applyPrefix
    split
    · rw [if_pos rfl]
    · exact absurd rfl hv
    · next hop _ => rw [if_neg hop]
  have heq : Value.applyPrefix op value = Value.applyPrefix op value' := by
    by_cases hint : value.type = .integer
    · cases h with
      | integer => rfl
      | _ => exact absurd hint (by simp [Value.type])
    · rw [hother hint, hother (h.type ▸ hint), h.isTruthy, h.type]
  rw [heq]
  exact of_computed (computed_applyPrefix op value')

theorem applyInfix (op : String) (ha : a.Like L a') (hb : b.Like L b') :
    (Value.applyInfix op a b).Like L (Value.applyInfix op a' b') := by
  have hother : otherInfix op a b = otherInfix op a' b' := by
    rw [otherInfix, otherInfix, identical_eq ha hb, ha.type, hb.type]
  have heq : Value.applyInfix op a b = Value.applyInfix op a' b' := by
    cases ha <;> cases hb <;> first | rfl | exact hother
  rw [heq]
  exact of_computed (computed_applyInfix op a' b')

theorem element {elements elements' : List Value} (h : List.Forall₂ (Like L) elements elements')
    (i : Int) : (Value.element elements i).Like L (Value.element elements' i) := by
  have hget : ∀ n : Nat, Option.Rel (Like L) elements[n]? elements'[n]? := by
    intro n
    induction h generalizing n with
    | nil => exact .none
    | cons h _ ih =>
      cases n with
      | zero => exact .some h
      | succ n => exact ih n
  unfold Value.element
  split
  · exact .null
  · exact getD (hget i.toNat)

theorem entry {entries entries' : List (HashKey × Value × Value)}
    (h : OrderedMap.Like (Prod.RProd (Like L) (Like L)) entries entries') {key key' : Value}
    (hkey : key.Like L key') : (Value.entry entries key).Like L (Value.entry entries' key') := by
  rw [Value.entry, Value.entry, ← hkey.hashKey?, ← hkey.type]
  cases key.hashKey? with
  | none => exact .error
  | some k =>
    have hget : ∀ {found found' : Option (Value × Value)},
        Option.Rel (Prod.RProd (Like L) (Like L)) found found' →
        ((found.map Prod.snd).getD .null).Like L ((found'.map Prod.snd).getD .null) := by
      intro found found' h
      cases h with
      | none => exact .null
      | some hpair =>
        cases hpair with
        | intro _ hvalue => exact hvalue
    exact hget (h.find? k)

theorem index (ha : a.Like L a') (hb : b.Like L b') :
    (Value.index a b).Like L (Value.index a' b') := by
  cases ha with
  | array _ h =>
    cases hb with
    | integer => exact element h _
    | _ => exact .error
  | hash _ h => exact entry h hb
  | _ => exact .error

end Operators

/-- A value is like itself if the numbers and environments in it correspond to themselves and all
names that occur in its functions are visible. -/
theorem of_within (htokens : ∀ token, L.tokens token token)
    (h : value.Within (fun env ↦ L.addresses env env) fun inner ↦
      (∀ id ∈ inner.id?, L.ids id id) ∧
        ∀ name ∈ inner.ownNames, L.visible name = true) :
    value.Like L value := by
  have hsame : ∀ {values : List Value}, (∀ value ∈ values, value.Like L value) →
      List.Forall₂ (Like L) values values := List.forall₂_same.mpr
  induction value using Value.induction_parts with
  | h value ih =>
    replace ih : ∀ part ∈ value.parts, part.Like L part :=
      fun part hpart ↦ ih part hpart (h.of_mem hpart)
    obtain ⟨hid, hnames⟩ := h.self
    cases value with
    | integer => exact .integer
    | boolean => exact .boolean
    | null => exact .null
    | string => exact .string
    | array id => exact .array (hid id rfl) (hsame ih)
    | hash id entries =>
      refine .hash (hid id rfl) (List.forall₂_same.mpr fun entry hm ↦ .intro rfl (.intro ?_ ?_))
      · exact ih _ (Value.mem_parts_hash.mpr ⟨entry, hm, .inl rfl⟩)
      · exact ih _ (Value.mem_parts_hash.mpr ⟨entry, hm, .inr rfl⟩)
    | function id params body env =>
      have hlike : (Node.fn .eof params body).Like L (.fn .eof params body) :=
        .of_names htokens hnames
      cases hlike with
      | fn _ hshows hparams hbody => exact .function (hid id rfl) hshows hparams hbody (h.scope rfl)
    | builtin => exact .builtin
    | returned id => exact .returned (hid id rfl) (ih _ (List.mem_cons_self ..))
    | error => exact .error

theorem refl (hL : L.Reflexive) (value : Value) : value.Like L value :=
  of_within hL.tokens (.of_forall hL.addresses
    (fun _ ↦ ⟨fun id _ ↦ hL.ids id, fun name _ ↦ hL.visible name⟩) value)

/-- A value is the same as one that it is like if what is in it corresponds to itself alone. -/
theorem eq_of_within (htokens : ∀ {token token'}, L.tokens token token' → token = token')
    (hself : value.Within (fun env ↦ ∀ env', L.addresses env env' → env = env') fun inner ↦
      ∀ id ∈ inner.id?, ∀ id', L.ids id id' → id = id')
    (h : value.Like L value') : value = value' := by
  induction value using Value.induction_parts generalizing value' with
  | h value ih =>
    replace ih : ∀ part ∈ value.parts, ∀ {part'}, part.Like L part' → part = part' :=
      fun part hpart {_} h ↦ ih part hpart (hself.of_mem hpart) h
    have hids := hself.self
    cases h with
    | array hid h =>
      have helements : List.Forall₂ (· = ·) _ _ := forall₂_imp_of_mem h ih
      rw [List.forall₂_eq_eq_eq] at helements
      rw [hids _ rfl _ hid, helements]
    | @hash _ _ entries entries' hid h =>
      have hentries : List.Forall₂ (· = ·) entries entries' := by
        refine forall₂_imp_of_mem h fun entry hm entry' hentry ↦ ?_
        obtain ⟨rfl, hk, hv⟩ := hentry
        have hkey := ih _ (Value.mem_parts_hash.mpr ⟨_, hm, .inl rfl⟩) hk
        have hvalue := ih _ (Value.mem_parts_hash.mpr ⟨_, hm, .inr rfl⟩) hv
        exact Prod.ext rfl (Prod.ext hkey hvalue)
      rw [List.forall₂_eq_eq_eq] at hentries
      rw [hids _ rfl _ hid, hentries]
    | function hid _ hp hb he =>
      have hparams : List.Forall₂ (· = ·) _ _ := hp.imp fun _ _ h ↦ h.eq htokens
      rw [List.forall₂_eq_eq_eq] at hparams
      rw [hids _ rfl _ hid, hparams, hb.eq htokens, hself.scope rfl _ he]
    | returned hid h => rw [hids _ rfl _ hid, ih _ (List.mem_cons_self ..) h]
    | _ => rfl

theorem eq (hL : L.Literal) (h : value.Like L value') : value = value' :=
  h.eq_of_within hL.tokens
    (.of_forall (fun _ _ ↦ hL.addresses) (fun _ _ _ _ ↦ hL.ids) value)

end Value.Like

end MonkeyLang
