import MonkeyLang.Proofs.Evaluation.Telling
import MonkeyLang.Proofs.Value.Nested

/-!
Equality is identity: two composite values are equal if and only if they stem from the same making,
wherever they have been bound, passed or kept since.
-/

namespace MonkeyLang

namespace Value

/-- Whether a value is an array, a hash or something that can be called. -/
def isComposite : Value → Bool
  | array .. | hash .. | function .. | builtin _ => true
  | _ => false

/-- What makes a value the one it is, for the operators that compare values. -/
inductive Identity
  | integer (value : Int)
  | boolean (value : Bool)
  | null
  | builtin (function : Builtin)
  | made (type : ValueType) (id : Nat)

/-- The identity of a value. Strings are not compared, and faults are no operands. -/
def identity? : Value → Option Identity
  | integer value => some (.integer value)
  | boolean value => some (.boolean value)
  | null => some .null
  | builtin f => some (.builtin f)
  | array id _ => some (.made .array id)
  | hash id _ => some (.made .hash id)
  | function id .. => some (.made .function id)
  | returned id _ => some (.made .returned id)
  | string _ | error _ => none

theorem equal_iff {a b : Value} : applyInfix "==" a b = .boolean true ↔
    ∃ identity, a.identity? = some identity ∧ b.identity? = some identity := by
  cases a <;> cases b <;>
    simp [applyInfix, integerInfix, stringInfix, otherInfix, identical, identity?]
  all_goals exact eq_comm

theorem id?_of_identity? {value : Value} {type : ValueType} {id : Nat}
    (h : value.identity? = some (.made type id)) : value.id? = some id := by
  cases value <;> cases h <;> rfl

/-- The value can be compared: it is no string, and no fault, which is never an operand. -/
def Comparable (value : Value) : Prop := value.type ≠ .string ∧ value.isError = false

theorem comparable_of_isComposite {value : Value} (h : value.isComposite = true) :
    value.Comparable := by
  cases value with
  | string | error => cases h
  | _ => exact ⟨nofun, rfl⟩

theorem Comparable.identity {value : Value} (h : value.Comparable) :
    ∃ identity, value.identity? = some identity := by
  cases value with
  | string => exact absurd rfl h.1
  | error => cases h.2
  | _ => exact ⟨_, rfl⟩

theorem equal_self {value : Value} (h : value.Comparable) :
    applyInfix "==" value value = .boolean true := by
  obtain ⟨identity, hidentity⟩ := h.identity
  exact equal_iff.mpr ⟨identity, hidentity, hidentity⟩

theorem equal_symm {a b : Value} (h : applyInfix "==" a b = .boolean true) :
    applyInfix "==" b a = .boolean true := by
  obtain ⟨identity, ha, hb⟩ := equal_iff.mp h
  exact equal_iff.mpr ⟨identity, hb, ha⟩

theorem equal_trans {a b c : Value} (h : applyInfix "==" a b = .boolean true)
    (h' : applyInfix "==" b c = .boolean true) : applyInfix "==" a c = .boolean true := by
  obtain ⟨identity, ha, hb⟩ := equal_iff.mp h
  obtain ⟨identity', hb', hc⟩ := equal_iff.mp h'
  obtain rfl := Option.some.inj (hb.symm.trans hb')
  exact equal_iff.mpr ⟨identity, ha, hc⟩

theorem compared {a b : Value} (h : a.type ≠ .string ∨ b.type ≠ .string) : ∃ equal,
    applyInfix "==" a b = .boolean equal ∧ applyInfix "!=" a b = .boolean (!equal) := by
  unfold applyInfix
  split
  · exact ⟨_, rfl, by simp [integerInfix]⟩
  · simp [type] at h
  · exact ⟨_, rfl, rfl⟩

theorem unequal {a b : Value} (h : a.type ≠ .string ∨ b.type ≠ .string)
    (hne : applyInfix "==" a b ≠ .boolean true) : applyInfix "==" a b = .boolean false := by
  obtain ⟨equal, hequal, -⟩ := compared h
  cases equal with
  | true => exact absurd hequal hne
  | false => exact hequal

end Value

/-- The laws of the operators that compare values. -/
structure EqualityLaws : Prop where
  equivalence : Equivalence fun a b : {value : Value // value.Comparable} ↦
    Value.applyInfix "==" a b = .boolean true
  negation : ∀ a b : Value, a.type ≠ .string ∨ b.type ≠ .string → ∃ equal,
    Value.applyInfix "==" a b = .boolean equal ∧ Value.applyInfix "!=" a b = .boolean (!equal)
  strings : ∀ op ∈ ["==", "!="], ∀ a b,
    Value.applyInfix op (.string a) (.string b) = .error (.unknownInfix .string op .string)
  /-- Faults are not compared: they are the value of the node in which they come up. -/
  operands : ∀ (registry : Registry) (apply : Value → List Value → Run Value) (env : Address)
    (token : Token) (left right : Node) (op : String) (value : Value) (machine after : Machine),
    Evaluation.expr registry apply env (.infixOp token left op right) machine = .ok value after →
      value.isError = true ∨ ∃ a b mid,
        Evaluation.expr registry apply env left machine = .ok a mid ∧
        Evaluation.expr registry apply env right mid = .ok b after ∧
        a.isError = false ∧ b.isError = false ∧ value = Value.applyInfix op a b

theorem equalityLaws : EqualityLaws where
  equivalence := ⟨fun a ↦ Value.equal_self a.2, Value.equal_symm, Value.equal_trans⟩
  negation _ _ := Value.compared
  strings op hop a b := by
    rcases List.mem_pair.mp hop with rfl | rfl <;> rfl
  operands registry apply env token left right op value machine after h := by
    rcases Run.operand_cases h with ⟨fault, hfault, rfl⟩ | ⟨a, mid, hleft, ha, h⟩
    · exact .inl hfault
    · rcases Run.operand_cases h with ⟨fault, hfault, rfl⟩ | ⟨b, mid', hright, hb, h⟩
      · exact .inl hfault
      · cases h
        exact .inr ⟨a, b, mid, hleft, hright, ha, hb, rfl⟩

/-- What composite values stem from. -/
inductive Origin
  /-- What was made as the one with this number in the order of time. -/
  | making (n : Nat)
  /-- The entry of the registry with this function. -/
  | entry (function : Builtin)

namespace History

/-- The value is the very one of that origin. -/
def StemsFrom (history : History) (value : Value) : Origin → Prop
  | .making n => history.births[n]? = some value
  | .entry function => value = .builtin function

variable {history : History} {i : Nat} {event : Event} {value : Value}

theorem before_le (history : History) (i : Nat) : history.before i ≤ history := List.take_prefix i _

theorem before_mono (history : History) {i j : Nat} (h : i ≤ j) :
    history.before i ≤ history.before j :=
  List.take_prefix_take_left h

theorem before_succ (h : history.events[i]? = some event) :
    history.before (i + 1) = (history.before i).add event := by
  rw [before, List.take_add_one, h]
  rfl

/-- What comes up at an event is known from then on. -/
theorem Faithful.known (h : history.Faithful) (hi : history.events[i]? = some event)
    (hm : value ∈ event.values) : (history.before (i + 1)).Known value := by
  obtain ⟨hbound, hnew⟩ := h i event hi
  rw [before_succ hi]
  cases event with
  | made store made =>
    rcases List.mem_cons.mp hm with rfl | hm
    · exact .made hnew.1 hnew.2
    · exact (hbound value hm).mono (le_add _ _)
  | seen store seen =>
    rcases List.mem_cons.mp hm with rfl | hm
    · exact Known.mono hnew (le_add _ _)
    · exact (hbound value hm).mono (le_add _ _)

theorem Faithful.known_before (h : history.Faithful) (hevent : event ∈ (history.before i).events)
    (hm : value ∈ event.values) : (history.before i).Known value := by
  obtain ⟨j, hj⟩ := List.mem_iff_getElem?.mp hevent
  rw [before, List.getElem?_take] at hj
  split at hj
  · next hlt => exact (h.known hj hm).mono (history.before_mono hlt)
  · cases hj

/-- The numbers of creation count what is made in the order of time. -/
theorem Faithful.id?_of_births (h : history.Faithful) {n : Nat}
    (hn : history.births[n]? = some value) : value.id? = some n := by
  -- by induction on how far the chronicle has come
  have hbefore : ∀ (i n : Nat) (value : Value),
      (history.before i).births[n]? = some value → value.id? = some n := by
    intro i
    induction i with
    | zero => exact fun n value hn ↦ nomatch hn
    | succ i ih =>
      intro n value hn
      cases hi : history.events[i]? with
      | none =>
        rw [before, List.take_add_one, hi] at hn
        exact ih n value (by simpa [before] using hn)
      | some event =>
        rw [before_succ hi] at hn
        cases event with
        | seen => exact ih n value (by rwa [births_seen] at hn)
        | made store made =>
          rw [births_made, List.getElem?_append] at hn
          split at hn
          · exact ih n value hn
          · rw [List.getElem?_singleton] at hn
            split at hn
            · cases hn
              rw [(h i _ hi).2.1]
              exact congrArg some (by omega)
            · cases hn
  refine hbefore history.events.length n value ?_
  rwa [before, List.take_length]

theorem Known.origin (h : history.Known value) (hcomposite : value.isComposite = true) :
    ∃ origin, history.StemsFrom value origin := by
  cases value with
  | array id | hash id | function id => exact ⟨.making id, h.self id rfl⟩
  | builtin f => exact ⟨.entry f, rfl⟩
  | _ => cases hcomposite

theorem Known.eq_of_id? {a b : Value} (ha : history.Known a) (hb : history.Known b) {id : Nat}
    (hia : a.id? = some id) (hib : b.id? = some id) : a = b :=
  Option.some.inj ((ha.self id hia).symm.trans (hb.self id hib))

theorem Faithful.origin_unique (h : history.Faithful) {origin origin' : Origin}
    (ho : history.StemsFrom value origin) (ho' : history.StemsFrom value origin') :
    origin = origin' := by
  cases origin with
  | making n =>
    have hid := h.id?_of_births ho
    cases origin' with
    | making m => exact congrArg _ (Option.some.inj (hid.symm.trans (h.id?_of_births ho')))
    | entry f =>
      obtain rfl : value = .builtin f := ho'
      cases hid
  | entry f =>
    obtain rfl : value = .builtin f := ho
    cases origin' with
    | making m => cases h.id?_of_births ho'
    | entry g =>
      cases ho'
      rfl

theorem StemsFrom.eq {a b : Value} {origin : Origin} (ha : history.StemsFrom a origin)
    (hb : history.StemsFrom b origin) : a = b := by
  cases origin with
  | making n => exact Option.some.inj (ha.symm.trans hb)
  | entry f => exact ha.trans hb.symm

/-- Values that are known are equal only if they are one and the same. -/
theorem Known.eq_of_equal {a b : Value} (ha : history.Known a) (hb : history.Known b)
    (h : Value.applyInfix "==" a b = .boolean true) : a = b := by
  obtain ⟨identity, hia, hib⟩ := Value.equal_iff.mp h
  cases identity with
  | made type id => exact ha.eq_of_id? hb (Value.id?_of_identity? hia) (Value.id?_of_identity? hib)
  | _ =>
    cases a <;> cases hia
    cases b <;> cases hib
    rfl

/-- What is made differs from all that is known at the time. -/
theorem Faithful.new (h : history.Faithful) {store : Store}
    (hi : history.events[i]? = some (.made store value)) {old : Value}
    (hold : (history.before i).Known old) : Value.applyInfix "==" value old ≠ .boolean true := by
  intro hequal
  have hid := (h i _ hi).2.1
  obtain ⟨identity, hv, ho⟩ := Value.equal_iff.mp hequal
  cases identity with
  | made type id =>
    obtain rfl := Option.some.inj (hid.symm.trans (Value.id?_of_identity? hv))
    obtain ⟨hlt, -⟩ := List.getElem?_eq_some_iff.mp (hold.self _ (Value.id?_of_identity? ho))
    exact Nat.lt_irrefl _ hlt
  | _ =>
    cases value <;> cases hv
    cases hid

end History

namespace Session

/-- The value is found somewhere in the session: inside one that is made, comes up or is bound at
some time, inside an outcome or inside one that is bound in the end. -/
inductive Finds (outcomes : List Outcome) (after : Machine) (history : History) : Value → Prop
  | event {event : Event} {outer value : Value} : event ∈ history.events → outer ∈ event.values →
      value ∈ outer.nested → Finds outcomes after history value
  | outcome {outer value : Value} : .ok (some outer) ∈ outcomes → value ∈ outer.nested →
      Finds outcomes after history value
  | bound {outer value : Value} : outer ∈ after.store.values → value ∈ outer.nested →
      Finds outcomes after history value

/-- Equality is identity among all the composite values of a session. -/
structure Identities (outcomes : List Outcome) (after : Machine) (history : History) : Prop where
  origin : ∀ value, Finds outcomes after history value → value.isComposite = true →
    ∃! origin, history.StemsFrom value origin
  equal_iff : ∀ a b, Finds outcomes after history a → Finds outcomes after history b →
    a.isComposite = true → b.isComposite = true →
    (Value.applyInfix "==" a b = .boolean true ↔
      ∃ origin, history.StemsFrom a origin ∧ history.StemsFrom b origin)
  same : ∀ a b, Finds outcomes after history a → Finds outcomes after history b →
    Value.applyInfix "==" a b = .boolean true → a = b
  new : ∀ (i : Nat) (store : Store) (value : Value),
    history.events[i]? = some (.made store value) → value.isComposite = true →
    ∀ old, (old ∈ store.values ∨ ∃ event ∈ (history.before i).events, old ∈ event.values) →
      ∀ inner ∈ old.nested, Value.applyInfix "==" value inner = .boolean false ∧
        Value.applyInfix "==" inner value = .boolean false

variable {outcomes : List Outcome} {after : Machine} {history : History}

theorem Finds.known {value : Value} (h : Finds outcomes after history value)
    (hfits : history.Fits after)
    (houtcomes : ∀ outcome ∈ outcomes, Chronicled.knows history outcome) :
    history.Known value := by
  cases h with
  | event hevent houter hm =>
    obtain ⟨i, hi⟩ := List.mem_iff_getElem?.mp hevent
    exact ((hfits.faithful.known hi houter).mono (history.before_le _)).of_nested hm
  | outcome houtcome hm => exact (houtcomes _ houtcome _ rfl _ rfl).of_nested hm
  | bound houter hm => exact (hfits.bound _ houter).of_nested hm

theorem identities_of_fits (hfits : history.Fits after)
    (houtcomes : ∀ outcome ∈ outcomes, Chronicled.knows history outcome) :
    Identities outcomes after history where
  origin value hvalue hcomposite := by
    obtain ⟨origin, horigin⟩ := (hvalue.known hfits houtcomes).origin hcomposite
    exact ⟨origin, horigin, fun _ h ↦ hfits.faithful.origin_unique h horigin⟩
  equal_iff a b ha hb hcomposite _ := by
    constructor
    · intro h
      obtain rfl := (ha.known hfits houtcomes).eq_of_equal (hb.known hfits houtcomes) h
      obtain ⟨origin, horigin⟩ := (ha.known hfits houtcomes).origin hcomposite
      exact ⟨origin, horigin, horigin⟩
    · rintro ⟨origin, hoa, hob⟩
      obtain rfl := hoa.eq hob
      exact Value.equal_self (Value.comparable_of_isComposite hcomposite)
  same a b ha hb h := (ha.known hfits houtcomes).eq_of_equal (hb.known hfits houtcomes) h
  new i store value hi hcomposite old hold inner hm := by
    have hknown : (history.before i).Known old := by
      rcases hold with hold | ⟨event, hevent, hold⟩
      · exact (hfits.faithful i _ hi).1 old hold
      · exact hfits.faithful.known_before hevent hold
    have hne := hfits.faithful.new hi (hknown.of_nested hm)
    have htype := (Value.comparable_of_isComposite hcomposite).1
    exact ⟨Value.unequal (.inl htype) hne,
      Value.unequal (.inr htype) fun h ↦ hne (Value.equal_symm h)⟩

end Session

end MonkeyLang
