import MonkeyLang.Proofs.Evaluation.Rules
import MonkeyLang.Proofs.Word

/-!
The operators between integers as the arithmetic of a machine with words of 64 bits: in whole
numbers for a single operator, in words for all of them, and for expressions of any depth.
-/

namespace MonkeyLang

namespace Value

/-- The operators that are made for two integers. -/
def integerOperators : List String := ["+", "-", "*", "/", "<", ">", "==", "!="]

/-- What an operator gives for the bits of two words. -/
def wordInfix (op : String) (x y : BitVec 64) : Value :=
  match op with
  | "+" => integer (x + y).toInt
  | "-" => integer (x - y).toInt
  | "*" => integer (x * y).toInt
  | "/" => if y = 0 then error .divisionByZero else integer (x.sdiv y).toInt
  | "<" => boolean (x.slt y)
  | ">" => boolean (y.slt x)
  | "==" => boolean (x = y)
  | "!=" => boolean (x ≠ y)
  | _ => error (.unknownInfix .integer op .integer)

theorem integerInfix_toInt (op : String) (x y : BitVec 64) :
    integerInfix op x.toInt y.toInt = wordInfix op x y := by
  unfold integerInfix wordInfix
  split
  case h_1 => rw [BitVec.toInt_add]; rfl
  case h_2 => rw [BitVec.toInt_sub]; rfl
  case h_3 => rw [BitVec.toInt_mul]; rfl
  case h_4 =>
    have hzero : y.toInt = 0 ↔ y = 0 := by
      rw [← BitVec.toInt_inj]
      exact Iff.rfl
    rw [BitVec.toInt_sdiv]
    exact if_congr hzero rfl rfl
  case h_5 => simp [BitVec.slt]
  case h_6 => simp [BitVec.slt]
  case h_7 => simp [BitVec.toInt_inj]
  case h_8 => simp [BitVec.toInt_inj]
  case h_9 => simp_all

theorem toInt_ofInt {n : Int} (h : Word.IsSigned n) : (BitVec.ofInt 64 n).toInt = n := by
  rw [BitVec.toInt_ofInt]
  exact Word.wrap_of_isSigned h

theorem isError_integerInfix (op : String) (a b : Int) :
    (integerInfix op a b).isError = true ↔ op = "/" ∧ b = 0 ∨ op ∉ integerOperators := by
  unfold integerInfix integerOperators
  split
  case h_4 => by_cases hb : b = 0 <;> simp [hb, isError]
  case h_9 => simp_all [isError]
  all_goals simp [isError]

/-- What the operators give for two integers, by the operator between them, and what the minus
gives in front of the first one. -/
structure Arithmetic (a b : Int) (infixed : String → Value) (negated : Value) : Prop where
  sum (c : Int) : infixed "+" = integer c ↔ Word.Represents c (a + b)
  difference (c : Int) : infixed "-" = integer c ↔ Word.Represents c (a - b)
  product (c : Int) : infixed "*" = integer c ↔ Word.Represents c (a * b)
  negation (c : Int) : negated = integer c ↔ Word.Represents c (-a)
  quotient (c : Int) : b ≠ 0 → ¬ (a = Word.smallest ∧ b = -1) →
    (infixed "/" = integer c ↔ Word.IsQuotient a b c)
  /-- The quotient by way of the absolute values. -/
  absolute : b ≠ 0 → infixed "/" = integer
    (Word.wrap (if decide (a < 0) = decide (b < 0) then |a| / |b| else -(|a| / |b|)))
  overflow : a = Word.smallest → b = -1 → infixed "/" = integer Word.smallest
  byZero : b = 0 → infixed "/" = error .divisionByZero
  fault (op : String) :
    (infixed op).isError = true ↔ op = "/" ∧ b = 0 ∨ op ∉ integerOperators
  less : infixed "<" = boolean (a < b)
  greater : infixed ">" = boolean (b < a)
  equal : infixed "==" = boolean (a = b)
  unequal : infixed "!=" = boolean (a ≠ b)
  /-- The same in bits. -/
  words : infixed = fun op ↦ wordInfix op (BitVec.ofInt 64 a) (BitVec.ofInt 64 b)
  wordNegation : negated = integer (-BitVec.ofInt 64 a).toInt

theorem integer_eq_iff {c n : Int} : integer (Word.wrap n) = integer c ↔ Word.Represents c n := by
  rw [Word.represents_iff, integer.injEq]
  exact eq_comm

theorem arithmetic_of_isSigned {a b : Int} (ha : Word.IsSigned a) (hb : Word.IsSigned b) :
    Arithmetic a b (fun op ↦ applyInfix op (integer a) (integer b))
      (applyPrefix "-" (integer a)) where
  sum _ := integer_eq_iff
  difference _ := integer_eq_iff
  product _ := integer_eq_iff
  negation _ := integer_eq_iff
  quotient c hzero hover := by
    change (if b = 0 then _ else _) = _ ↔ _
    rw [if_neg hzero, Word.quotient_of_isSigned ha hover, integer.injEq,
      Word.isQuotient_iff hzero]
    exact eq_comm
  absolute hzero := by
    rw [← Word.quotient_eq_abs]
    exact if_neg hzero
  overflow hleft hright := by
    subst hleft hright
    exact congrArg integer Word.quotient_smallest
  byZero hzero := if_pos hzero
  fault op := isError_integerInfix op a b
  less := rfl
  greater := rfl
  equal := rfl
  unequal := rfl
  words := by
    funext op
    rw [← integerInfix_toInt, toInt_ofInt ha, toInt_ofInt hb]
    rfl
  wordNegation := by
    rw [BitVec.toInt_neg, toInt_ofInt ha]
    rfl

end Value

namespace Evaluation

section

variable {registry : Registry} {apply : Value → List Value → Run Value} {env : Address}
  {left right : Node} {machine between after : Machine} {a b : Int}

theorem expr_infixOp_integer (token : Token) (op : String)
    (hleft : expr registry apply env left machine = .ok (.integer a) between)
    (hright : expr registry apply env right between = .ok (.integer b) after) :
    expr registry apply env (.infixOp token left op right) machine =
      .ok (Value.applyInfix op (.integer a) (.integer b)) after :=
  expr_infixOp hleft rfl hright rfl

theorem expr_prefixOp_integer (token : Token) (op : String)
    (h : expr registry apply env left machine = .ok (.integer a) after) :
    expr registry apply env (.prefixOp token op left) machine =
      .ok (Value.applyPrefix op (.integer a)) after := by
  rw [expr, Run.run_operand h rfl]
  rfl

end

/-- The node adds, subtracts, multiplies and negates the signed words that other nodes have as their
values. The number is what comes out where nothing is wrapped. -/
inductive Computes (registry : Registry) (apply : Value → List Value → Run Value) (env : Address) :
    Node → Int → Machine → Machine → Prop
  | word {node n machine after} : Word.IsSigned n →
      expr registry apply env node machine = .ok (.integer n) after →
      Computes registry apply env node n machine after
  | negation {token node n machine after} : Computes registry apply env node n machine after →
      Computes registry apply env (.prefixOp token "-" node) (-n) machine after
  | sum {token left right m n machine between after} :
      Computes registry apply env left m machine between →
      Computes registry apply env right n between after →
      Computes registry apply env (.infixOp token left "+" right) (m + n) machine after
  | difference {token left right m n machine between after} :
      Computes registry apply env left m machine between →
      Computes registry apply env right n between after →
      Computes registry apply env (.infixOp token left "-" right) (m - n) machine after
  | product {token left right m n machine between after} :
      Computes registry apply env left m machine between →
      Computes registry apply env right n between after →
      Computes registry apply env (.infixOp token left "*" right) (m * n) machine after

variable {registry : Registry} {apply : Value → List Value → Run Value} {env : Address}
  {node left right : Node} {machine between after : Machine} {a b n : Int}

theorem Computes.expr_eq (h : Computes registry apply env node n machine after) :
    expr registry apply env node machine = .ok (.integer (Word.wrap n)) after := by
  induction h with
  | word hsigned heval => rw [heval, Word.wrap_of_isSigned hsigned]
  | @negation token _ n _ _ _ ih =>
    rw [expr_prefixOp_integer token "-" ih, ← Word.wrap_neg n]
    rfl
  | @sum token _ _ m n _ _ _ _ _ hleft hright =>
    rw [expr_infixOp_integer token "+" hleft hright, ← Word.wrap_add m n]
    rfl
  | @difference token _ _ m n _ _ _ _ _ hleft hright =>
    rw [expr_infixOp_integer token "-" hleft hright, ← Word.wrap_sub m n]
    rfl
  | @product token _ _ m n _ _ _ _ _ hleft hright =>
    rw [expr_infixOp_integer token "*" hleft hright, ← Word.wrap_mul m n]
    rfl

/-- Operators between nodes with signed words as their values are the arithmetic of the machine.
Every number has one word that stands for it, which masking gives, and an expression may be wrapped
at every step or once at the end. -/
theorem expr_arithmetic (ha : Word.IsSigned a) (hb : Word.IsSigned b)
    (hleft : expr registry apply env left machine = .ok (.integer a) between)
    (hright : expr registry apply env right between = .ok (.integer b) after) :
    (∃ infixed negated, Value.Arithmetic a b infixed negated ∧
      (∀ token op, expr registry apply env (.infixOp token left op right) machine =
        .ok (infixed op) after) ∧
      ∀ token, expr registry apply env (.prefixOp token "-" left) machine = .ok negated between) ∧
    (∀ n : Int, Word.wrap n = (n - Word.smallest).land (2 ^ 64 - 1 : Nat) + Word.smallest ∧
      ∀ c, c = Word.wrap n ↔ Word.Represents c n) ∧
    ∀ {node n machine after}, Computes registry apply env node n machine after →
      expr registry apply env node machine = .ok (.integer (Word.wrap n)) after := by
  refine ⟨⟨_, _, Value.arithmetic_of_isSigned ha hb, ?_, ?_⟩, ?_, Computes.expr_eq⟩
  · exact fun token op ↦ expr_infixOp_integer token op hleft hright
  · exact fun token ↦ expr_prefixOp_integer token "-" hleft
  · exact fun n ↦ ⟨Word.wrap_eq_land n, fun _ ↦ Word.represents_iff.symm⟩

/-- Division cuts off towards zero, also with a negative divisor. -/
theorem expr_arithmetic_negative :
    let seven : Node := .int ⟨.int, "7"⟩ 7
    let two : Node := .prefixOp ⟨.minus, "-"⟩ "-" (.int ⟨.int, "2"⟩ 2)
    let eval := expr .standard (fun _ _ ↦ pure .null) 0
    eval seven .initial = .ok (.integer 7) .initial ∧
      eval two .initial = .ok (.integer (-2)) .initial ∧
      eval (.infixOp ⟨.slash, "/"⟩ seven "/" two) .initial = .ok (.integer (-3)) .initial := by
  intro seven two eval
  have hseven : eval seven .initial = .ok (.integer 7) .initial := rfl
  have htwo : eval two .initial = .ok (.integer (-2)) .initial := rfl
  obtain ⟨⟨infixed, _, harith, heval, -⟩, -⟩ :=
    expr_arithmetic (by decide) (by decide) hseven htwo
  have hquotient : infixed "/" = .integer (-3) :=
    (harith.quotient (-3) (by decide) (by decide)).mpr ⟨1, by decide⟩
  refine ⟨hseven, htwo, ?_⟩
  rw [← hquotient]
  exact heval _ _

end Evaluation

end MonkeyLang
