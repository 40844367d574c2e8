/-
# Proofs.Formula.Overflow — words that leave their range

What the overflow predicates look at tells exactly whether the result without a limit
leaves the range of the width: the carry of a sum with one more bit, its two highest
bits, the high half of a product, and a product that is not the extension of its low
half.
-/
import Faultline.Proofs.Formula.Owned

namespace Faultline.Formula

open BitVec

variable {w n : Nat}

lemma toNat_extractLsb_self (z : BitVec n) (i : Nat) : (z.extractLsb i i).toNat = (z.getLsbD i).toNat := by
  rw [extractLsb_toNat, Nat.sub_self, Nat.zero_add, pow_one, Nat.shiftRight_eq_div_pow, BitVec.getLsbD,
    Nat.toNat_testBit]

lemma carry_eq (x y : BitVec w) : (x.setWidth (w + 1) + y.setWidth (w + 1)).getLsbD w = x.uaddOverflow y := by
  rw [uaddOverflow_eq, msb_eq_getLsbD_last, Nat.add_sub_cancel]

/-- The two highest bits of a word agree exactly when its number needs only one of them. -/
lemma topBits_ne_iff (z : BitVec (w + 1)) (positive : 0 < w) :
    z.getLsbD w ≠ z.getLsbD (w - 1) ↔ z.toInt ≥ 2 ^ (w - 1) ∨ z.toInt < -2 ^ (w - 1) := by
  obtain ⟨n, rfl⟩ : ∃ n, w = n + 1 := ⟨w - 1, by omega⟩
  have bits (i : Nat) : z.getLsbD i = decide (z.toNat / 2 ^ i % 2 = 1) := Nat.testBit_eq_decide_div_mod_eq
  have below := z.isLt
  rw [bits, bits, toInt_eq_toNat_cond, Nat.add_sub_cancel]
  have powers : 2 ^ (n + 1) = 2 * 2 ^ n ∧ 2 ^ (n + 1 + 1) = 4 * 2 ^ n := by constructor <;> ring
  have cast : ((2 ^ n : Nat) : Int) = 2 ^ n := by norm_cast
  rw [powers.2] at below ⊢
  rw [powers.1, ← cast]
  generalize z.toNat = t at below ⊢
  have quotient {d : Nat} (q : Nat) (least : q * d ≤ t) (most : t < (q + 1) * d) : t / d = q :=
    Nat.div_eq_of_lt_le least most
  have positive := Nat.two_pow_pos n
  generalize 2 ^ n = m at *
  -- The quarter of its range in which the number lies gives both bits.
  rcases (by omega : t < m ∨ (m ≤ t ∧ t < 2 * m) ∨ (2 * m ≤ t ∧ t < 3 * m) ∨ (3 * m ≤ t ∧ t < 4 * m))
    with h | h | h | h
  · rw [quotient 0 (by omega) (by omega), quotient 0 (by omega) (by omega), if_pos (by omega)]
    simp; omega
  · rw [quotient (d := 2 * m) 0 (by omega) (by omega), quotient (d := m) 1 (by omega) (by omega), if_pos (by omega)]
    simp; omega
  · rw [quotient (d := 2 * m) 1 (by omega) (by omega), quotient (d := m) 2 (by omega) (by omega), if_neg (by omega)]
    simp; omega
  · rw [quotient (d := 2 * m) 1 (by omega) (by omega), quotient (d := m) 3 (by omega) (by omega), if_neg (by omega)]
    simp; omega

lemma toInt_product (x y : BitVec w) (positive : 0 < w) :
    (x.signExtend (w + w) * y.signExtend (w + w)).toInt = x.toInt * y.toInt := by
  have most := toInt_mul_toInt_le (x := x) (y := y)
  have least := le_toInt_mul_toInt (x := x) (y := y)
  rw [toInt_mul, toInt_signExtend_of_le (Nat.le_add_right w w),
    toInt_signExtend_of_le (Nat.le_add_right w w)]
  have powers : ((2 ^ (w + w) : Nat) : Int) = 4 * 2 ^ (w * 2 - 2) := by
    rw [show w + w = w * 2 - 2 + 2 by omega, pow_add]
    push_cast
    ring
  have positive : (0 : Int) < 2 ^ (w * 2 - 2) := by positivity
  apply Int.bmod_eq_of_le
  · rw [powers]; omega
  · rw [powers]; omega

lemma ne_signExtend_iff (z : BitVec (w + w)) (positive : 0 < w) :
    z ≠ (z.setWidth w).signExtend (w + w) ↔ z.toInt ≥ 2 ^ (w - 1) ∨ z.toInt < -2 ^ (w - 1) := by
  rw [ne_eq, ← toInt_inj, toInt_signExtend_of_le (Nat.le_add_right w w), toInt_setWidth]
  have low : (z.toNat : Int).bmod (2 ^ w) = z.toInt.bmod (2 ^ w) := by
    rw [toInt_eq_toNat_bmod, Int.bmod_bmod_of_dvd (Nat.pow_dvd_pow 2 (Nat.le_add_right w w))]
  have half : ((2 ^ w : Nat) : Int) = 2 * 2 ^ (w - 1) := by
    rw [show w = w - 1 + 1 by omega, pow_succ]
    push_cast
    ring
  rw [low, eq_comm, Int.bmod_eq_iff (Nat.two_pow_pos w), half]
  simp only [sub_self, dvd_zero, and_true]
  omega

lemma half_pow (positive : 0 < w) : (2 : Int) ^ w = 2 * 2 ^ (w - 1) := by
  rw [mul_comm, ← pow_succ, Nat.sub_add_cancel positive]

lemma topBits_eq {z : BitVec (w + 1)} {k : Int} (positive : 0 < w) (wraps : z.toInt = k.bmod (2 ^ (w + 1)))
    (least : -2 * 2 ^ (w - 1) ≤ k) (most : k < 2 * 2 ^ (w - 1)) :
    (z.getLsbD w != z.getLsbD (w - 1)) = (decide (k ≥ 2 ^ (w - 1)) || decide (k < -2 ^ (w - 1))) := by
  have half := half_pow positive
  have exact : z.toInt = k := by
    rw [wraps]
    apply Int.bmod_eq_of_le
    · push_cast; rw [pow_succ]; omega
    · push_cast; rw [pow_succ]; omega
  rw [Bool.eq_iff_iff, bne_iff_ne, topBits_ne_iff _ positive, exact]
  simp only [Bool.or_eq_true, decide_eq_true_eq]

lemma topBits_sum (x y : BitVec w) (positive : 0 < w) :
    ((x.signExtend (w + 1) + y.signExtend (w + 1)).getLsbD w
      != (x.signExtend (w + 1) + y.signExtend (w + 1)).getLsbD (w - 1)) = x.saddOverflow y := by
  have left := x.le_toInt
  have left' := x.toInt_lt
  have right := y.le_toInt
  have right' := y.toInt_lt
  refine topBits_eq positive ?_ (by omega) (by omega)
  rw [toInt_add, toInt_signExtend_of_le (Nat.le_succ w), toInt_signExtend_of_le (Nat.le_succ w)]

lemma topBits_difference (x y : BitVec w) (positive : 0 < w) :
    ((x.signExtend (w + 1) - y.signExtend (w + 1)).getLsbD w
      != (x.signExtend (w + 1) - y.signExtend (w + 1)).getLsbD (w - 1)) = x.ssubOverflow y := by
  have left := x.le_toInt
  have left' := x.toInt_lt
  have right := y.le_toInt
  have right' := y.toInt_lt
  refine topBits_eq positive ?_ (by omega) (by omega)
  rw [toInt_sub, toInt_signExtend_of_le (Nat.le_succ w), toInt_signExtend_of_le (Nat.le_succ w)]

lemma highHalf_ne_zero (x y : BitVec w) :
    ((x.setWidth (w + w) * y.setWidth (w + w)).toNat / 2 ^ w ≠ 0) ↔ x.umulOverflow y = true := by
  have most : x.toNat * y.toNat < 2 ^ (w + w) := by
    rw [pow_add]
    exact Nat.mul_lt_mul'' x.isLt y.isLt
  have wide (z : BitVec w) : z.toNat < 2 ^ (w + w) :=
    z.isLt.trans_le (Nat.pow_le_pow_right Nat.two_pos (Nat.le_add_right w w))
  rw [toNat_mul, toNat_setWidth, toNat_setWidth, Nat.mod_eq_of_lt (wide x),
    Nat.mod_eq_of_lt (wide y), Nat.mod_eq_of_lt most, BitVec.umulOverflow, decide_eq_true_eq,
    Nat.div_ne_zero_iff]
  exact ⟨fun h => h.2, fun h => ⟨(Nat.two_pow_pos w).ne', h⟩⟩

/-- The high half of the product differs from zero if the product does not fit. -/
lemma highHalf_differs (x y : BitVec w) :
    Compare.ne.smt (BitVec.ofNat w ((x.setWidth (w + w) * y.setWidth (w + w)).toNat / 2 ^ w)) (BitVec.ofInt w 0) =
      x.umulOverflow y := by
  have inside : (x.setWidth (w + w) * y.setWidth (w + w)).toNat / 2 ^ w < 2 ^ w := by
    rw [Nat.div_lt_iff_lt_mul (Nat.two_pow_pos w), ← pow_add]
    exact BitVec.isLt _
  rw [Bool.eq_iff_iff, ← highHalf_ne_zero]
  show decide (_ ≠ _) = true ↔ _
  rw [decide_eq_true_eq, ne_eq, ← toNat_inj, toNat_ofNat, Nat.mod_eq_of_lt inside]
  simp

lemma product_ne_low (x y : BitVec w) (positive : 0 < w) :
    decide (x.signExtend (w + w) * y.signExtend (w + w)
      ≠ ((x.signExtend (w + w) * y.signExtend (w + w)).setWidth w).signExtend (w + w)) = x.smulOverflow y := by
  rw [Bool.eq_iff_iff, decide_eq_true_eq, ne_signExtend_iff _ positive, toInt_product x y positive, BitVec.smulOverflow]
  simp only [Bool.or_eq_true, decide_eq_true_eq]

end Faultline.Formula
