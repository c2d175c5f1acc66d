import MonkeyLang.Fnv
import Mathlib.Data.Int.ModEq
import Mathlib.Data.List.Induction

/-!
Rounds of the hash lose nothing: for every byte a round permutes the words, so that what two hashes
have in common or not stays as it is however the bytes go on. Different bytes lead from one hash to
different ones, and bytes that differ in one place have different hashes. So have short lists of
bytes of one length.
-/

namespace MonkeyLang.Fnv

variable {hash hash' : UInt64} {b c : UInt8} {xs ys : List UInt8}

section Rounds

/-- What takes back the multiplication by the prime. -/
def inverse : UInt64 := 0xCE965057AFF6957B

theorem prime_mul_inverse : prime * inverse = 1 := by decide

/-- The hash before a round. -/
def unround (hash : UInt64) (byte : UInt8) : UInt64 := (hash * inverse) ^^^ byte.toUInt64

theorem unround_round (hash : UInt64) (byte : UInt8) : unround (round hash byte) byte = hash := by
  rw [unround, round, UInt64.mul_assoc, prime_mul_inverse, UInt64.mul_one, UInt64.xor_assoc,
    UInt64.xor_self, UInt64.xor_zero]

theorem round_unround (hash : UInt64) (byte : UInt8) : round (unround hash byte) byte = hash := by
  rw [round, unround, UInt64.xor_assoc, UInt64.xor_self, UInt64.xor_zero, UInt64.mul_assoc,
    UInt64.mul_comm inverse, prime_mul_inverse, UInt64.mul_one]

theorem round_bijective (byte : UInt8) : Function.Bijective (round · byte) :=
  Function.bijective_iff_has_inverse.mpr
    ⟨(unround · byte), (unround_round · byte), (round_unround · byte)⟩

theorem xor_eq_of_round_eq (h : round hash b = round hash' c) :
    hash ^^^ b.toUInt64 = hash' ^^^ c.toUInt64 := by
  have hback := congrArg (· * inverse) h
  simpa only [round, UInt64.mul_assoc, prime_mul_inverse, UInt64.mul_one] using hback

theorem round_inj : round hash b = round hash c ↔ b = c := by
  constructor
  · intro h
    exact UInt8.toUInt64_inj.mp ((UInt64.xor_right_inj hash).mp (xor_eq_of_round_eq h))
  · exact fun h ↦ h ▸ rfl

theorem foldl_round_injective (bytes : List UInt8) :
    Function.Injective fun hash ↦ bytes.foldl round hash := by
  induction bytes with
  | nil => exact fun _ _ h ↦ h
  | cons byte bytes ih => exact fun _ _ h ↦ (round_bijective byte).injective (ih h)

end Rounds

section Numbers

/-- The hash computed with numbers of any size, of which the mask leaves the lowest 64 bits. -/
def digestNumber (bytes : List UInt8) : Nat :=
  bytes.foldl (fun hash byte ↦ (hash ^^^ byte.toNat) * 0x100000001B3 &&& 2 ^ 64 - 1)
    0xCBF29CE484222325

theorem toNat_round (hash : UInt64) (byte : UInt8) :
    (round hash byte).toNat = (hash.toNat ^^^ byte.toNat) * 0x100000001B3 &&& 2 ^ 64 - 1 := by
  rw [round, UInt64.toNat_mul, UInt64.toNat_xor, UInt8.toNat_toUInt64,
    Nat.and_two_pow_sub_one_eq_mod]
  rfl

theorem toNat_digest (bytes : List UInt8) : (digest bytes).toNat = digestNumber bytes := by
  have hfold : ∀ (hash : UInt64), (bytes.foldl round hash).toNat =
      bytes.foldl (fun hash byte ↦ (hash ^^^ byte.toNat) * 0x100000001B3 &&& 2 ^ 64 - 1)
        hash.toNat := by
    induction bytes with
    | nil => exact fun _ ↦ rfl
    | cons byte bytes ih =>
      intro hash
      rw [List.foldl_cons, List.foldl_cons, ih, toNat_round]
  exact hfold offsetBasis

theorem digestNumber_lt (bytes : List UInt8) : digestNumber bytes < 2 ^ 64 :=
  toNat_digest bytes ▸ (digest bytes).toNat_lt

end Numbers

section Digests

theorem digest_append_inj (zs : List UInt8) :
    digest (xs ++ zs) = digest (ys ++ zs) ↔ digest xs = digest ys := by
  rw [digest, digest, List.foldl_append, List.foldl_append]
  exact (foldl_round_injective zs).eq_iff

theorem digest_concat (xs : List UInt8) (b : UInt8) :
    digest (xs ++ [b]) = round (digest xs) b := List.foldl_append

theorem digest_concat_inj (xs : List UInt8) :
    digest (xs ++ [b]) = digest (xs ++ [c]) ↔ b = c := by
  rw [digest_concat, digest_concat]
  exact round_inj

/-- The lists are of the same length and differ in exactly one place. -/
structure DifferOnce (xs ys : List UInt8) : Prop where
  length : xs.length = ys.length
  place : ∃! i : Nat, xs[i]? ≠ ys[i]?

theorem DifferOnce.split (h : DifferOnce xs ys) : ∃ before b c after,
    b ≠ c ∧ xs = before ++ b :: after ∧ ys = before ++ c :: after := by
  obtain ⟨i, hi, hunique⟩ := h.place
  have hsame : ∀ j, j ≠ i → xs[j]? = ys[j]? := fun j hj ↦ by_contra fun hne ↦ hj (hunique j hne)
  have hx : i < xs.length := by
    by_contra hlt
    refine hi ?_
    rw [List.getElem?_eq_none (by omega), List.getElem?_eq_none (by have := h.length; omega)]
  have hy : i < ys.length := h.length ▸ hx
  have hbefore : xs.take i = ys.take i := by
    refine List.ext_getElem? fun j ↦ ?_
    rw [List.getElem?_take, List.getElem?_take]
    split
    · next hj => exact hsame j (Nat.ne_of_lt hj)
    · rfl
  have hafter : xs.drop (i + 1) = ys.drop (i + 1) := by
    refine List.ext_getElem? fun j ↦ ?_
    rw [List.getElem?_drop, List.getElem?_drop]
    exact hsame _ (by omega)
  have hcut : ∀ {zs : List UInt8} (hz : i < zs.length),
      zs = zs.take i ++ zs[i] :: zs.drop (i + 1) := by
    intro zs hz
    rw [List.getElem_cons_drop, List.take_append_drop]
  refine ⟨xs.take i, xs[i], ys[i], xs.drop (i + 1), fun he ↦ hi ?_, hcut hx, ?_⟩
  · rw [List.getElem?_eq_getElem hx, List.getElem?_eq_getElem hy, he]
  · rw [hbefore, hafter]
    exact hcut hy

theorem DifferOnce.digest_ne (h : DifferOnce xs ys) : digest xs ≠ digest ys := by
  obtain ⟨before, b, c, after, hne, rfl, rfl⟩ := h.split
  rw [List.append_cons before b, List.append_cons before c, Ne, digest_append_inj,
    digest_concat_inj]
  exact hne

end Digests

section Short

/-- A round adds its byte to the lowest 8 bits. -/
theorem toNat_xor_div (hash : UInt64) (byte : UInt8) :
    (hash ^^^ byte.toUInt64).toNat / 256 = hash.toNat / 256 := by
  have hbyte : byte.toNat >>> 8 = 0 := by
    rw [Nat.shiftRight_eq_div_pow]
    exact Nat.div_eq_of_lt byte.toNat_lt
  have hshift := Nat.shiftRight_xor_distrib (a := hash.toNat) (b := byte.toNat) (i := 8)
  rwa [hbyte, Nat.xor_zero, Nat.shiftRight_eq_div_pow, Nat.shiftRight_eq_div_pow,
    ← UInt8.toNat_toUInt64, ← UInt64.toNat_xor] at hshift

/-- In the lowest 40 bits the prime is a small factor. -/
theorem round_modEq (hash : UInt64) (byte : UInt8) :
    ((round hash byte).toNat : Int) ≡ 435 * (hash ^^^ byte.toUInt64).toNat [ZMOD 2 ^ 40] := by
  have hprime : (prime.toNat : Int) ≡ 435 [ZMOD 2 ^ 40] := by decide
  rw [round, UInt64.toNat_mul, Int.natCast_mod, Int.natCast_mul, Int.mul_comm 435]
  exact ((Int.mod_modEq _ _).of_dvd (by decide)).trans (hprime.mul_left _)

/-- The distance of two hashes, as far as their lowest 40 bits tell it. -/
def Apart (hash hash' : UInt64) (z : Int) : Prop :=
  (hash.toNat : Int) - hash'.toNat ≡ z [ZMOD 2 ^ 40]

theorem Apart.round {z : Int} (h : Apart hash hash' z) (b c : UInt8) :
    ∃ z', z'.natAbs ≤ z.natAbs + 510 ∧ Apart (round hash b) (round hash' c) (435 * z') := by
  have hb := toNat_xor_div hash b
  have hc := toNat_xor_div hash' c
  have hround := (round_modEq hash b).sub (round_modEq hash' c)
  rw [← Int.mul_sub] at hround
  generalize (hash ^^^ b.toUInt64).toNat = u, (hash' ^^^ c.toUInt64).toNat = v at *
  refine ⟨z + ((u - hash.toNat) - (v - hash'.toNat)), by omega, ?_⟩
  have hsum := (h.add_right ((u - hash.toNat : Int) - (v - hash'.toNat))).mul_left 435
  have hdistance : (hash.toNat : Int) - hash'.toNat + ((u - hash.toNat) - (v - hash'.toNat)) =
      u - v := by omega
  rw [hdistance] at hsum
  exact hround.trans hsum

/-- How far apart the hashes of lists of one length can be. -/
def reach : Nat → Nat
  | 0 => 0
  | n + 1 => 435 * (reach n + 510)

theorem reach_mono : Monotone reach :=
  monotone_nat_of_le_succ fun n ↦ by rw [reach]; omega

/-- Lists of one length are built up behind, byte by byte. -/
theorem induction_concat {P : List UInt8 → List UInt8 → Prop} (nil : P [] [])
    (concat : ∀ {xs ys} (b c : UInt8), xs.length = ys.length → P xs ys →
      P (xs ++ [b]) (ys ++ [c]))
    (h : xs.length = ys.length) : P xs ys := by
  induction xs using List.reverseRecOn generalizing ys with
  | nil =>
    obtain rfl := List.length_eq_zero_iff.mp h.symm
    exact nil
  | append_singleton xs b ih =>
    rcases List.eq_nil_or_concat ys with rfl | ⟨ys, c, rfl⟩
    · simp at h
    · rw [List.concat_eq_append] at h ⊢
      rw [List.length_append, List.length_append] at h
      have hlength := Nat.add_right_cancel h
      exact concat b c hlength (ih hlength)

/-- Every round takes hashes apart by a multiple of the factor. -/
theorem exists_apart (h : xs.length = ys.length) : ∃ z : Int,
    (435 * z).natAbs ≤ reach xs.length ∧ Apart (digest xs) (digest ys) (435 * z) := by
  refine induction_concat (P := fun xs ys ↦ ∃ z : Int, (435 * z).natAbs ≤ reach xs.length ∧
    Apart (digest xs) (digest ys) (435 * z)) ?_ (fun {xs ys} b c _ ih ↦ ?_) h
  · exact ⟨0, Nat.le_refl 0, by rw [Apart, Int.sub_self]; rfl⟩
  · obtain ⟨z, hz, hapart⟩ := ih
    obtain ⟨z', hz', hround⟩ := hapart.round b c
    refine ⟨z', ?_, ?_⟩
    · rw [List.length_append, List.length_singleton, reach]
      omega
    · rwa [digest_concat, digest_concat]

/-- Short lists of one length have different hashes. -/
theorem digest_inj_of_short (h : xs.length = ys.length) (hshort : xs.length ≤ 4) :
    digest xs = digest ys ↔ xs = ys := by
  refine ⟨?_, fun he ↦ he ▸ rfl⟩
  revert hshort
  refine induction_concat (P := fun xs ys ↦ xs.length ≤ 4 → digest xs = digest ys → xs = ys)
    (fun _ _ ↦ rfl) (fun {xs ys} b c hlength ih hshort hdigest ↦ ?_) h
  rw [List.length_append, List.length_singleton] at hshort
  -- the hashes before the last round can differ in the lowest 8 bits only, and are too close for
  -- lists of this length to differ in these
  have hnear : (digest xs).toNat / 256 = (digest ys).toNat / 256 := by
    rw [digest_concat, digest_concat] at hdigest
    rw [← toNat_xor_div (digest xs) b, xor_eq_of_round_eq hdigest, toNat_xor_div]
  obtain ⟨z, hz, hapart⟩ := exists_apart hlength
  have hreach : reach xs.length ≤ 42076292850 := reach_mono (Nat.le_of_succ_le_succ hshort)
  have hsame : (digest xs).toNat = (digest ys).toNat := by
    obtain ⟨k, hk⟩ := hapart.dvd
    generalize (digest xs).toNat = n, (digest ys).toNat = m at *
    obtain rfl : k = 0 := by omega
    omega
  obtain rfl := ih (by omega) (UInt64.toNat_inj.mp hsame)
  rw [(digest_concat_inj xs).mp hdigest]

end Short

/-- A hash is a number of 64 bits, and the rounds that lead to it lose nothing. Whatever follows two
lists of bytes, they have the same hash with it if and only if they have the same hash without it;
different bytes behind the same ones give different hashes, and so do lists of the same length that
differ in one place. -/
theorem digest_separates :
    (∀ bytes, (digest bytes).toNat = digestNumber bytes ∧ digestNumber bytes < 2 ^ 64) ∧
    (∀ byte, Function.Bijective (round · byte)) ∧
    (∀ xs ys zs : List UInt8, digest (xs ++ zs) = digest (ys ++ zs) ↔ digest xs = digest ys) ∧
    (∀ (xs : List UInt8) (b c : UInt8), digest (xs ++ [b]) = digest (xs ++ [c]) ↔ b = c) ∧
    ∀ xs ys : List UInt8, DifferOnce xs ys → digest xs ≠ digest ys :=
  ⟨fun bytes ↦ ⟨toNat_digest bytes, digestNumber_lt bytes⟩, round_bijective,
    fun _ _ zs ↦ digest_append_inj zs, fun xs _ _ ↦ digest_concat_inj xs,
    fun _ _ h ↦ h.digest_ne⟩

theorem digest_separates_zeros :
    DifferOnce [0, 0, 255] [0, 128, 255] ∧ digest [0, 0, 255] ≠ digest [0, 128, 255] := by
  have hdiffer : DifferOnce [0, 0, 255] [0, 128, 255] := by
    refine ⟨rfl, 1, by decide, fun i hi ↦ ?_⟩
    match i with
    | 0 => exact absurd rfl hi
    | 1 => rfl
    | 2 => exact absurd rfl hi
    | i + 3 => exact absurd rfl hi
  exact ⟨hdiffer, digest_separates.2.2.2.2 _ _ hdiffer⟩

end MonkeyLang.Fnv
