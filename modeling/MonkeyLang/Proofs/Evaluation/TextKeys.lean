import MonkeyLang.Proofs.Evaluation.Hashes
import MonkeyLang.Proofs.Fnv
import MonkeyLang.Proofs.Session

/-!
Texts as keys. A hash knows a text by the digest of its bytes alone, and takes a text for another
one if the two collide. Up to that, an index finds what stands at its own text, and a pair gives way
to no pair but one with the same text.
-/

namespace MonkeyLang

namespace Fnv

/-- The bytes of a text in UTF-8. -/
def utf8 (text : String) : List UInt8 := text.toList.flatMap String.utf8EncodeChar

/-- The texts are different and have the same hash. -/
def Collide (s t : String) : Prop := s ≠ t ∧ digestText s = digestText t

instance (s t : String) : Decidable (Collide s t) := inferInstanceAs (Decidable (_ ∧ _))

variable {s t : String}

theorem utf8_inj : utf8 s = utf8 t ↔ s = t := by
  refine ⟨fun h ↦ ?_, fun h ↦ h ▸ rfl⟩
  have hbytes : s.toList.utf8Encode = t.toList.utf8Encode := congrArg List.toByteArray h
  rw [← String.toByteArray_ofList, ← String.toByteArray_ofList, String.ofList_toList,
    String.ofList_toList] at hbytes
  exact String.toByteArray_inj.mp hbytes

theorem digestText_eq_iff : digestText s = digestText t ↔ s = t ∨ Collide s t := by
  constructor
  · intro h
    by_cases he : s = t
    · exact .inl he
    · exact .inr ⟨he, h⟩
  · rintro (rfl | h)
    · rfl
    · exact h.2

/-- The bytes of the texts are equally many, and at most four or all the same but for one place. -/
inductive Near (s t : String) : Prop
  | once : DifferOnce (utf8 s) (utf8 t) → Near s t
  | short : (utf8 s).length = (utf8 t).length → (utf8 s).length ≤ 4 → Near s t

theorem Near.not_collide (h : Near s t) : ¬ Collide s t := by
  rintro ⟨hne, hdigest⟩
  cases h with
  | once h => exact h.digest_ne hdigest
  | short hlength hshort =>
    exact hne (utf8_inj.mp ((digest_inj_of_short hlength hshort).mp hdigest))

end Fnv

theorem Value.hashKey?_string {s t : String} :
    (string s).hashKey? = (string t).hashKey? ↔ s = t ∨ Fnv.Collide s t := by
  rw [hashKey?, hashKey?, Option.some_inj, HashKey.string.injEq, Fnv.digestText_eq_iff]

/-- Only texts have the key of a text. -/
theorem Value.eq_string_of_hashKey? {key : Value} {t : String}
    (h : key.hashKey? = (string t).hashKey?) :
    ∃ s, key = string s ∧ (s = t ∨ Fnv.Collide s t) := by
  cases key with
  | string s => exact ⟨s, rfl, hashKey?_string.mp h⟩
  | _ => cases h

/-- A pair that is listed with a text as its key stands in the table, unless a pair behind it has
the same text or one that collides with it. -/
def KeepsTexts (listed table : List (HashKey × Value × Value)) : Prop :=
  ∀ before k s value later, listed = before ++ (k, .string s, value) :: later →
    (k, .string s, value) ∈ table ∨
      ∃ k' t value', (k', .string t, value') ∈ later ∧ (t = s ∨ Fnv.Collide t s)

/-- What an index by a text finds in the table: the value of a pair whose key is the text, or one
that collides with it, and null if there is none. -/
inductive FindsText (table : List (HashKey × Value × Value)) (t : String) : Value → Prop
  | pair {k : HashKey} {s : String} {value : Value} :
      (k, .string s, value) ∈ table → s = t ∨ Fnv.Collide s t → FindsText table t value
  | null : (∀ k s value, (k, .string s, value) ∈ table → ¬ (s = t ∨ Fnv.Collide s t)) →
      FindsText table t .null

def textPair? : HashKey × Value × Value → Option (String × Value)
  | (_, .string s, value) => some (s, value)
  | _ => none

/-- The pairs among the listed ones that have a text as their key. -/
def textPairs (listed : List (HashKey × Value × Value)) : List (String × Value) :=
  listed.filterMap textPair?

/-- The table lists the pairs, each at the key that its key value stands for. -/
structure Builds (listed table : List (HashKey × Value × Value)) : Prop where
  own : ∀ entry ∈ listed, entry.2.1.hashKey? = some entry.1
  lists : OrderedMap.Lists listed table
  keyed : Keyed table

namespace Builds

variable {listed table : List (HashKey × Value × Value)} {k : HashKey} {t : String}

theorem keepsTexts (h : Builds listed table) : KeepsTexts listed table := by
  rintro before k s value later rfl
  have hk : (Value.string s).hashKey? = some k :=
    h.own (k, .string s, value) (List.mem_append_right _ List.mem_cons_self)
  by_cases hlater : k ∈ later.map Prod.fst
  · obtain ⟨⟨_, key, value'⟩, hm, rfl⟩ := List.mem_map.mp hlater
    have hkey := h.own _ (List.mem_append_right _ (List.mem_cons_of_mem _ hm))
    obtain ⟨t, rfl, ht⟩ := Value.eq_string_of_hashKey? (hkey.trans hk.symm)
    exact .inr ⟨_, t, value', hm, ht⟩
  · have hfind := h.lists.find? k
    rw [OrderedMap.last?_of_notMem hlater] at hfind
    exact .inl (OrderedMap.mem_of_find? hfind)

theorem findsText (h : Builds listed table) (hk : (Value.string t).hashKey? = some k) :
    FindsText table t (((OrderedMap.find? k table).map Prod.snd).getD .null) := by
  cases hfind : OrderedMap.find? k table with
  | some entry =>
    obtain ⟨key, value⟩ := entry
    have hm := OrderedMap.mem_of_find? hfind
    obtain ⟨s, rfl, hs⟩ := Value.eq_string_of_hashKey? ((h.keyed.own _ hm).trans hk.symm)
    exact .pair hm hs
  | none =>
    refine .null fun k' s value hm hs ↦ OrderedMap.find?_eq_none.mp hfind ?_
    have hkey := (h.keyed.own _ hm).symm.trans ((Value.hashKey?_string.mpr hs).trans hk)
    obtain rfl := Option.some.inj hkey
    exact List.mem_map_of_mem hm

/-- No pair but one with the text itself stands at its key, if none collides with it. -/
theorem last?_eq (hown : ∀ entry ∈ listed, entry.2.1.hashKey? = some entry.1)
    (hk : (Value.string t).hashKey? = some k)
    (hapart : ∀ pair ∈ textPairs listed, ¬ Fnv.Collide pair.1 t) :
    (OrderedMap.last? k listed).map Prod.snd = OrderedMap.last? t (textPairs listed) := by
  induction listed using List.reverseRecOn with
  | nil => rfl
  | append_singleton listed entry ih =>
    obtain ⟨k', key, value⟩ := entry
    obtain ⟨hown, hentry⟩ := List.forall_mem_append.mp hown
    have hkey : key.hashKey? = some k' := hentry _ List.mem_cons_self
    have htexts : textPairs (listed ++ [(k', key, value)]) =
        textPairs listed ++ (textPair? (k', key, value)).toList := by
      rw [textPairs, List.filterMap_append]
      cases hpair : textPair? (k', key, value) <;> simp [textPairs, hpair]
    rw [htexts] at hapart ⊢
    obtain ⟨hapart, hown'⟩ := List.forall_mem_append.mp hapart
    rw [OrderedMap.last?_concat]
    by_cases he : k' = k
    · obtain ⟨s, rfl, hs⟩ := Value.eq_string_of_hashKey? (hkey.trans (he ▸ hk.symm))
      obtain rfl := hs.resolve_right (hown' _ List.mem_cons_self)
      rw [if_pos he, textPair?, Option.toList_some, OrderedMap.last?_concat, if_pos rfl]
      rfl
    · rw [if_neg he, ih hown hapart]
      cases key with
      | string s =>
        have hne : s ≠ t := by
          rintro rfl
          exact he (Option.some.inj (hkey.symm.trans hk))
        rw [textPair?, Option.toList_some, OrderedMap.last?_concat, if_neg hne]
      | _ => exact (congrArg _ (List.append_nil _)).symm

end Builds

namespace Evaluation

variable {registry : Registry} {apply : Value → List Value → Run Value} {env : Address}
  {pairs : List (Node × Node)} {listed : List (HashKey × Value × Value)} {machine after : Machine}

theorem Tabulates.own (h : Tabulates registry apply env pairs listed machine after) :
    ∀ entry ∈ listed, entry.2.1.hashKey? = some entry.1 := by
  induction h with
  | nil => exact List.forall_mem_nil _
  | cons _ hk _ _ _ ih => exact List.forall_mem_cons.mpr ⟨hk, ih⟩

theorem expr_hash_builds {token : Token} {value : Value}
    (h : expr registry apply env (.hash token pairs) machine = .ok value after)
    (hproper : value.isError = false) : ∃ listed table between,
      Tabulates registry apply env pairs listed machine between ∧ Builds listed table ∧
        value = .hash between.created table ∧
        after = { between with created := between.created + 1 } := by
  rcases expr_hash_cases h with hfault | ⟨listed, between, hlisted⟩
  · cases hfault.symm.trans hproper
  · obtain ⟨table, hlists, hkeyed, hexpr⟩ := hlisted.expr_eq token
    rw [hexpr] at h
    cases h
    exact ⟨listed, table, between, hlisted, ⟨hlisted.own, hlists, hkeyed⟩, rfl, rfl⟩

end Evaluation

section Laws

variable (registry : Registry) (apply : Value → List Value → Run Value) (env : Address)

/-- Hashes are maps over texts, as far as these do not collide. -/
structure TextKeyLaws : Prop where
  /-- Texts stand for the same key if they are the same or collide. -/
  key (s t : String) :
    (Value.string s).hashKey? = (Value.string t).hashKey? ↔ s = t ∨ Fnv.Collide s t
  /-- No collision is near. -/
  near (s t : String) : Fnv.Near s t → ¬ Fnv.Collide s t
  /-- A literal lists its pairs. One with a text gives way to none but one with the same text or
  one that collides with it. -/
  literal {pairs : List (Node × Node)} {token : Token} {value : Value} {machine after : Machine} :
    Evaluation.expr registry apply env (.hash token pairs) machine = .ok value after →
      value.isError = true ∨ ∃ listed table between,
        Evaluation.Tabulates registry apply env pairs listed machine between ∧
          Builds listed table ∧ value = .hash between.created table ∧ KeepsTexts listed table
  /-- An index by a text finds what stands at it or at one that collides with it. -/
  index {listed table : List (HashKey × Value × Value)} {collection keyNode : Node} {id : Nat}
    {t : String} {machine between after : Machine} (token : Token) :
    Builds listed table →
      Evaluation.expr registry apply env collection machine = .ok (.hash id table) between →
      Evaluation.expr registry apply env keyNode between = .ok (.string t) after →
      ∃ found, FindsText table t found ∧
        Evaluation.expr registry apply env (.index token collection keyNode) machine =
          .ok found after
  /-- If no text that is listed collides with it, this is what is listed at the text itself last. -/
  apart {listed table : List (HashKey × Value × Value)} {collection keyNode : Node} {id : Nat}
    {t : String} {machine between after : Machine} (token : Token) :
    Builds listed table → (∀ pair ∈ textPairs listed, ¬ Fnv.Collide pair.1 t) →
      Evaluation.expr registry apply env collection machine = .ok (.hash id table) between →
      Evaluation.expr registry apply env keyNode between = .ok (.string t) after →
      Evaluation.expr registry apply env (.index token collection keyNode) machine =
        .ok ((OrderedMap.last? t (textPairs listed)).getD .null) after

/-- Texts that are the same or collide share a key and are one key to a hash, and no other ones. -/
theorem textKeyLaws : TextKeyLaws registry apply env where
  key _ _ := Value.hashKey?_string
  near _ _ := Fnv.Near.not_collide
  literal {_ _ value _ _} h := by
    cases herror : value.isError with
    | true => exact .inl rfl
    | false =>
      obtain ⟨listed, table, between, hlisted, hbuilds, hvalue, -⟩ :=
        Evaluation.expr_hash_builds h herror
      exact .inr ⟨listed, table, between, hlisted, hbuilds, hvalue, hbuilds.keepsTexts⟩
  index token hbuilds hcollection hkey :=
    ⟨_, hbuilds.findsText rfl, Evaluation.expr_index_hash token hcollection hkey rfl⟩
  apart token hbuilds hapart hcollection hkey := by
    rw [Evaluation.expr_index_hash token hcollection hkey rfl, hbuilds.lists.find?,
      Builds.last?_eq hbuilds.own rfl hapart]

end Laws

/-- Short texts do not collide, and an index by one of them finds its own pair, behind the other. -/
theorem textKeyLaws_short :
    let text (s : String) := Node.str ⟨.string, s⟩ s
    let hash := Node.hash ⟨.lbrace, "\x7b"⟩
      [(text "ab", .int ⟨.int, "1"⟩ 1), (text "ba", .int ⟨.int, "2"⟩ 2)]
    ¬ Fnv.Collide "ab" "ba" ∧
      Evaluation.expr .standard (Evaluation.apply .standard 0) 0
          (.index ⟨.lbracket, "["⟩ hash (text "ba")) .initial =
        .ok (.integer 2) { Machine.initial with created := 1 } := by
  intro text hash
  have laws := textKeyLaws .standard (Evaluation.apply .standard 0) 0
  have hnear : ¬ Fnv.Collide "ab" "ba" := laws.near _ _ (.short rfl (by decide))
  let key (s : String) := HashKey.string (Fnv.digestText s)
  let table : List (HashKey × Value × Value) :=
    [(key "ab", .string "ab", .integer 1), (key "ba", .string "ba", .integer 2)]
  have hkeyed : Keyed table := by
    refine ⟨by simp [table, key, Value.hashKey?], ?_⟩
    decide +kernel
  refine ⟨hnear, ?_⟩
  have hbuilds : Builds table table := ⟨hkeyed.own, .of_nodup hkeyed.distinct, hkeyed⟩
  have hself : ¬ Fnv.Collide "ba" "ba" := fun h ↦ h.1 rfl
  have hapart : ∀ pair ∈ textPairs table, ¬ Fnv.Collide pair.1 "ba" := by
    simpa [textPairs, textPair?, table] using ⟨hnear, hself⟩
  have hcollection : Evaluation.expr .standard (Evaluation.apply .standard 0) 0 hash .initial =
      .ok (.hash 0 table) { Machine.initial with created := 1 } := rfl
  have hfound : (OrderedMap.last? "ba" (textPairs table)).getD .null = .integer 2 := by
    simp [textPairs, textPair?, table, OrderedMap.last?]
  exact hfound ▸ laws.apart _ hbuilds hapart hcollection rfl

namespace Session

/-- Two texts collide. A hash has the value of one of them at the other, and keeps the pair of only
one of them, with the value that is listed last. -/
theorem collision_overwrites :
    let s := "8yn0iYCKYHlIj4-BwPqk"
    let t := "GReLUrM4wMqfg9yzV3KQ"
    s ≠ t ∧ (Value.string s).hashKey? = (Value.string t).hashKey? ∧
      (match run [.fresh, .text .standard 0 ("\x7b\"" ++ s ++ "\": 1\x7d[\"" ++ t ++ "\"]"),
          .text .standard 0 ("\x7b\"" ++ s ++ "\": 1, \"" ++ t ++ "\": 2\x7d")] .initial with
        | .ok [.ok (some found), .ok (some hash)] _ => (found.inspect, hash.inspect)
        | _ => ("", "")) = ("1", "\x7b" ++ t ++ ": 2\x7d") := by
  decide +kernel

end Session

end MonkeyLang
