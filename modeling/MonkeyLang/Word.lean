/-!
Signed arithmetic in words of 64 bits, on integers.
-/

namespace MonkeyLang.Word

/-- The number of different words, which is `2 ^ 64`. -/
def modulus : Nat := 0x10000000000000000

/-- The signed words are the numbers from `-2 ^ 63` to `2 ^ 63 - 1`. -/
def IsSigned (n : Int) : Prop := -0x8000000000000000 ≤ n ∧ n < 0x8000000000000000

instance (n : Int) : Decidable (IsSigned n) := inferInstanceAs (Decidable (_ ∧ _))

/-- The signed word that is congruent to a number of any size. -/
def wrap (n : Int) : Int := n.bmod modulus

theorem isSigned_wrap (n : Int) : IsSigned (wrap n) := by
  have lower := Int.le_bmod (x := n) (m := modulus) (by decide)
  have upper := Int.bmod_lt (x := n) (m := modulus) (by decide)
  simp only [modulus] at lower upper
  unfold IsSigned wrap modulus
  omega

/-- Division that cuts off the fraction. The only quotient of words that is no word is that of the
smallest one by `-1`; it wraps. -/
def quotient (a b : Int) : Int := wrap (a.tdiv b)

end MonkeyLang.Word
