import MonkeyLang.Word
import Mathlib.Algebra.Order.Ring.Abs
import Mathlib.Data.Int.Bitwise
import Mathlib.Data.Int.ModEq

/-!
Wrapped numbers as the signed words of two's complement. A word stands for all numbers that are
congruent to it, and sums, differences, products and negatives may be wrapped at every step or once
at the end. The quotient of two words is exact, that of the smallest word by `-1` apart. Masks give
the words, and absolute values the quotients.
-/

namespace MonkeyLang.Word

variable {a b c n q : Int}

/-- The smallest signed word. -/
def smallest : Int := -0x8000000000000000

/-- The word stands for the number, which may be of any size. -/
def Represents (word n : Int) : Prop := IsSigned word ∧ word ≡ n [ZMOD modulus]

theorem wrap_modEq (n : Int) : wrap n ≡ n [ZMOD modulus] := Int.bmod_emod

theorem wrap_congr (h : a ≡ b [ZMOD modulus]) : wrap a = wrap b := by
  rw [wrap, wrap, ← Int.emod_bmod a, h, Int.emod_bmod]

theorem wrap_of_isSigned (h : IsSigned n) : wrap n = n := by
  have hsigned := isSigned_wrap n
  have hmod := wrap_modEq n
  unfold IsSigned at h hsigned
  unfold Int.ModEq modulus at hmod
  omega

/-- Every number has one word that stands for it. -/
theorem represents_iff : Represents c n ↔ c = wrap n := by
  constructor
  · intro ⟨hsigned, hmod⟩
    rw [← wrap_congr hmod, wrap_of_isSigned hsigned]
  · intro h
    exact h ▸ ⟨isSigned_wrap n, wrap_modEq n⟩

theorem wrap_add (a b : Int) : wrap (wrap a + wrap b) = wrap (a + b) :=
  wrap_congr ((wrap_modEq a).add (wrap_modEq b))

theorem wrap_sub (a b : Int) : wrap (wrap a - wrap b) = wrap (a - b) :=
  wrap_congr ((wrap_modEq a).sub (wrap_modEq b))

theorem wrap_mul (a b : Int) : wrap (wrap a * wrap b) = wrap (a * b) :=
  wrap_congr ((wrap_modEq a).mul (wrap_modEq b))

theorem wrap_neg (a : Int) : wrap (-wrap a) = wrap (-a) := wrap_congr (wrap_modEq a).neg

theorem land_two_pow_sub_one (n : Int) (k : Nat) :
    n.land ((2 ^ k - 1 : Nat) : Int) = n % (2 ^ k : Nat) := by
  have hpos : 0 < 2 ^ k := Nat.two_pow_pos k
  cases n with
  | ofNat m =>
    change ((m &&& (2 ^ k - 1) : Nat) : Int) = _
    rw [Nat.and_two_pow_sub_one_eq_mod]
    exact Int.natCast_mod m (2 ^ k)
  | negSucc m =>
    -- the bits that the mask has and `m` has not
    have hbits : (2 ^ k - 1).ldiff m = 2 ^ k - (m % 2 ^ k + 1) := by
      refine Nat.eq_of_testBit_eq fun i ↦ ?_
      rw [Nat.testBit_ldiff, Nat.testBit_two_pow_sub_one,
        Nat.testBit_two_pow_sub_succ (Nat.mod_lt m hpos), Nat.testBit_mod_two_pow]
      cases decide (i < k) <;> simp
    have hlt := Nat.mod_lt m hpos
    change (((2 ^ k - 1).ldiff m : Nat) : Int) = _
    rw [hbits, Int.negSucc_emod m (by exact_mod_cast hpos)]
    omega

/-- Wrapping keeps the lowest 64 bits of the distance from the smallest word. -/
theorem wrap_eq_land (n : Int) :
    wrap n = (n - smallest).land (2 ^ 64 - 1 : Nat) + smallest := by
  symm
  rw [land_two_pow_sub_one, ← represents_iff]
  unfold Represents IsSigned Int.ModEq smallest modulus
  omega

/-- The number is the quotient of two others with the fraction cut off: what remains is zero or has
the sign of the dividend. -/
def IsQuotient (a b q : Int) : Prop := ∃ r, a = q * b + r ∧ |r| < |b| ∧ (r = 0 ∨ r.sign = a.sign)

theorem isQuotient_tdiv (a : Int) (hb : b ≠ 0) : IsQuotient a b (a.tdiv b) := by
  refine ⟨a.tmod b, ?_, ?_, ?_⟩
  · rw [Int.mul_comm, Int.mul_tdiv_add_tmod]
  · rw [Int.abs_eq_natAbs, Int.abs_eq_natAbs, Int.natAbs_tmod]
    exact_mod_cast Nat.mod_lt _ (Int.natAbs_pos.mpr hb)
  · rw [← Int.sign_eq_zero_iff_zero, Int.sign_tmod]
    split
    · exact .inl rfl
    · exact .inr rfl

theorem IsQuotient.unique (h : IsQuotient a b c) (h' : IsQuotient a b q) : c = q := by
  have hside : ∀ {r : Int}, r = 0 ∨ r.sign = a.sign → (0 ≤ a → 0 ≤ r) ∧ (a ≤ 0 → r ≤ 0) := by
    intro r hr
    rcases hr with rfl | hr
    · exact ⟨fun _ ↦ le_rfl, fun _ ↦ le_rfl⟩
    · exact ⟨fun ha ↦ Int.sign_nonneg_iff.mp (hr ▸ Int.sign_nonneg_iff.mpr ha),
        fun ha ↦ Int.sign_nonpos_iff.mp (hr ▸ Int.sign_nonpos_iff.mpr ha)⟩
  obtain ⟨r, heq, hlt, hr⟩ := h
  obtain ⟨s, heq', hlt', hs⟩ := h'
  have hdvd : b ∣ s - r := ⟨c - q, by rw [Int.mul_sub, Int.mul_comm b, Int.mul_comm b]; omega⟩
  -- both remainders are on the same side of zero
  have hnear : |s - r| < |b| := by
    rw [abs_lt] at hlt hlt' ⊢
    have hle := hside hr
    have hle' := hside hs
    omega
  have hzero : s - r = 0 := Int.eq_zero_of_abs_lt_dvd ((abs_dvd b _).mpr hdvd) hnear
  have hb : b ≠ 0 := abs_pos.mp (lt_of_le_of_lt (abs_nonneg r) hlt)
  exact Int.eq_of_mul_eq_mul_right hb (by omega)

theorem isQuotient_iff (hb : b ≠ 0) : IsQuotient a b q ↔ q = a.tdiv b :=
  ⟨fun h ↦ h.unique (isQuotient_tdiv a hb), fun h ↦ h ▸ isQuotient_tdiv a hb⟩

theorem isSigned_tdiv (ha : IsSigned a) (h : ¬ (a = smallest ∧ b = -1)) : IsSigned (a.tdiv b) := by
  have habs := Int.natAbs_tdiv a b
  unfold IsSigned smallest at *
  by_cases hb : b.natAbs ≤ 1
  · obtain rfl | rfl | rfl : b = 0 ∨ b = 1 ∨ b = -1 := by omega
    · rw [Int.tdiv_zero]
      omega
    · rwa [Int.tdiv_one]
    · rw [Int.tdiv_neg, Int.tdiv_one]
      omega
  · have hhalf : a.natAbs / b.natAbs ≤ a.natAbs / 2 := Nat.div_le_div_left (by omega) (by omega)
    have hle : (a.tdiv b).natAbs ≤ a.natAbs / 2 := habs ▸ hhalf
    omega

theorem quotient_of_isSigned (ha : IsSigned a) (h : ¬ (a = smallest ∧ b = -1)) :
    quotient a b = a.tdiv b := wrap_of_isSigned (isSigned_tdiv ha h)

theorem quotient_smallest : quotient smallest (-1) = smallest := by decide

/-- The quotient is that of the absolute values, negated if the signs differ. -/
theorem quotient_eq_abs (a b : Int) :
    quotient a b = wrap (if decide (a < 0) = decide (b < 0) then |a| / |b| else -(|a| / |b|)) := by
  refine congrArg wrap ?_
  rcases lt_or_ge a 0 with ha | ha <;> rcases lt_or_ge b 0 with hb | hb
  · rw [decide_eq_true ha, decide_eq_true hb, if_pos rfl, abs_of_neg ha, abs_of_neg hb,
      ← Int.neg_tdiv_neg, Int.tdiv_eq_ediv_of_nonneg (by omega)]
  · rw [decide_eq_true ha, decide_eq_false hb.not_gt, if_neg Bool.false_ne_true.symm, abs_of_neg ha,
      abs_of_nonneg hb, ← Int.tdiv_eq_ediv_of_nonneg (by omega), Int.neg_tdiv, neg_neg]
  · rw [decide_eq_false ha.not_gt, decide_eq_true hb, if_neg Bool.false_ne_true, abs_of_nonneg ha,
      abs_of_neg hb, ← Int.tdiv_eq_ediv_of_nonneg ha, Int.tdiv_neg, neg_neg]
  · rw [decide_eq_false ha.not_gt, decide_eq_false hb.not_gt, if_pos rfl, abs_of_nonneg ha,
      abs_of_nonneg hb, Int.tdiv_eq_ediv_of_nonneg ha]

end MonkeyLang.Word
