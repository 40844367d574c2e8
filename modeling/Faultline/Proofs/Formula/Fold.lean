/-
# Proofs.Formula.Fold — constants fold to the meaning of the operation

`Arith.smt` and `Compare.smt` say what the operations of SMT-LIB do to words of one
width, in terms of `BitVec`. The folds of `Formula.Fold` compute over the integers
and cut the result. They agree at every width and for every operand, the totals for
a divisor of zero and for shifts past the width included (`Arith.ofNat_fold`,
`Compare.fold_eq`).
-/
import Mathlib
import Faultline.Formula.Fold

namespace Faultline

open BitVec

variable {w : Nat}

lemma twoPow_eq (n : Nat) : twoPow n = 2 ^ n := rfl

namespace Formula

/-! ## Meaning of the operations -/

/-- The SMT-LIB operation on words; divisions and shifts are total. -/
def Arith.smt (op : Arith) {w : Nat} (x y : BitVec w) : BitVec w :=
  match op with
  | .add => BitVec.add x y
  | .sub => BitVec.sub x y
  | .mul => BitVec.mul x y
  | .udiv => BitVec.smtUDiv x y
  | .sdiv => BitVec.smtSDiv x y
  | .urem => BitVec.umod x y
  | .srem => BitVec.srem x y
  | .and => BitVec.and x y
  | .or => BitVec.or x y
  | .xor => BitVec.xor x y
  | .shl => BitVec.shiftLeft x y.toNat
  | .lshr => BitVec.ushiftRight x y.toNat
  | .ashr => BitVec.sshiftRight x y.toNat

/-- The SMT-LIB comparison of words. -/
def Compare.smt (op : Compare) {w : Nat} (x y : BitVec w) : Bool :=
  match op with
  | .eq => decide (x = y)
  | .ne => decide (x ≠ y)
  | .ult => BitVec.ult x y
  | .ule => BitVec.ule x y
  | .ugt => BitVec.ult y x
  | .uge => BitVec.ule y x
  | .slt => BitVec.slt x y
  | .sle => BitVec.sle x y
  | .sgt => BitVec.slt y x
  | .sge => BitVec.sle y x

/-! ## Numbers and words -/

lemma truncate_ofNat (w n : Nat) : truncate w (n : Int) = n % 2 ^ w := by
  show (if n.log2 < w then n else n % twoPow w) = n % 2 ^ w
  split
  · rename_i small
    rcases Nat.eq_zero_or_pos n with rfl | positive
    · simp
    · exact (Nat.mod_eq_of_lt ((Nat.log2_lt (by omega)).1 small)).symm
  · rw [twoPow_eq]

lemma truncate_negSucc (w n : Nat) : truncate w (.negSucc n) = 2 ^ w - 1 - n % 2 ^ w := rfl

lemma truncate_eq (w : Nat) (v : Int) : truncate w v = (BitVec.ofInt w v).toNat := by
  rw [toNat_ofInt]
  cases v with
  | ofNat n =>
    rw [show Int.ofNat n = (n : Int) from rfl, truncate_ofNat]
    omega
  | negSucc n =>
    have bound : n % 2 ^ w < 2 ^ w := Nat.mod_lt _ (Nat.two_pow_pos w)
    rw [truncate_negSucc, Int.negSucc_emod _ (by exact_mod_cast Nat.two_pow_pos w)]
    omega

lemma truncate_lt (w : Nat) (v : Int) : truncate w v < 2 ^ w := by
  rw [truncate_eq]
  exact BitVec.isLt _

lemma signed_eq (w v : Nat) (fits : v < 2 ^ w) : signed w v = (BitVec.ofNat w v).toInt := by
  have sameValue : (BitVec.ofNat w v).toNat = v := by simp [Nat.mod_eq_of_lt fits]
  have signBit : (BitVec.ofNat w v).msb = v.testBit (w - 1) := by
    rcases Nat.eq_zero_or_pos w with rfl | positive
    · simp at fits
      simp [fits]
    · rw [msb_eq_getLsbD_last, getLsbD_ofNat]
      simp
      omega
  rw [toInt_eq_msb_cond, signBit, sameValue, signed, twoPow_eq]

lemma mask_eq (w : Nat) : mask w = (BitVec.allOnes w).toNat := by
  rw [toNat_allOnes]
  rfl

lemma ofNat_mask (w : Nat) : BitVec.ofNat w (mask w) = BitVec.allOnes w := by
  rw [mask_eq, ofNat_toNat, setWidth_eq]

lemma ofNat_truncate (w : Nat) (v : Int) : BitVec.ofNat w (truncate w v) = BitVec.ofInt w v := by
  rw [truncate_eq, ofNat_toNat, setWidth_eq]

lemma signed_toNat (x : BitVec w) : signed w x.toNat = x.toInt := by
  rw [signed_eq w _ x.isLt, ofNat_toNat, setWidth_eq]

lemma toNat_eq_zero_iff (x : BitVec w) : x.toNat = 0 ↔ x = 0#w := by
  rw [← toNat_inj, toNat_ofNat, Nat.zero_mod]

/-! ## Folds -/

/-- Away from zero the quotient with signs is the quotient of the integers, cut. -/
lemma ofInt_tdiv (x y : BitVec w) (nonzero : y ≠ 0#w) : BitVec.ofInt w (x.toInt.tdiv y.toInt) = x.smtSDiv y := by
  have negNonzero : y.neg ≠ 0#w := by simpa using nonzero
  have sameQuotient : x.smtSDiv y = x.sdiv y := by
    unfold BitVec.smtSDiv BitVec.sdiv BitVec.smtUDiv
    simp only [show (0 : BitVec w) = 0#w from rfl, if_neg nonzero, if_neg negNonzero]
  rw [sameQuotient]
  apply eq_of_toInt_eq
  rw [toInt_ofInt, toInt_sdiv]

lemma ofInt_tmod (x y : BitVec w) : BitVec.ofInt w (x.toInt.tmod y.toInt) = x.srem y := by
  rw [← toInt_srem, ofInt_toInt]

lemma sshiftRight_of_le {n : Nat} (x : BitVec w) (past : w ≤ n) :
    x.sshiftRight n = if x.toInt < 0 then BitVec.allOnes w else 0#w := by
  have sign : x.toInt < 0 ↔ x.msb = true := by
    rw [← slt_zero_iff_msb_cond, slt_iff_toInt_lt, toInt_zero]
  ext i inside
  rw [getElem_sshiftRight]
  have beyond : ¬ n + i < w := by omega
  by_cases negative : x.toInt < 0
  · simp [beyond, negative, sign.1 negative]
  · have positive : x.msb = false := by simpa using fun h => negative (sign.2 h)
    simp [beyond, negative, positive]

lemma Arith.ofNat_fold (op : Arith) (x y : BitVec w) :
    BitVec.ofNat w (op.fold w x.toNat y.toNat) = op.smt x y := by
  cases op with
  | add =>
    simp only [fold, smt, ofNat_truncate]
    rw [ofInt_add]
    simp
  | sub =>
    simp only [fold, smt, ofNat_truncate]
    rw [Int.sub_eq_add_neg, ofInt_add, ofInt_neg]
    simp [BitVec.sub_eq_add_neg]
  | mul =>
    simp only [fold, smt, ofNat_truncate]
    rw [ofInt_mul]
    simp
  | udiv =>
    simp only [fold, smt, toNat_eq_zero_iff, BitVec.smtUDiv]
    split
    · rename_i zero
      simp [ofNat_mask, zero]
    · rename_i nonzero
      rw [if_neg (show ¬ y = 0 from nonzero)]
      apply eq_of_toNat_eq
      rw [toNat_ofNat, udiv_eq, toNat_udiv]
      exact Nat.mod_eq_of_lt (lt_of_le_of_lt (Nat.div_le_self _ _) x.isLt)
  | urem =>
    simp only [fold, smt, toNat_eq_zero_iff]
    split
    · rename_i zero
      simp [zero]
    · apply eq_of_toNat_eq
      rw [toNat_ofNat, umod_eq, toNat_umod]
      exact Nat.mod_eq_of_lt (lt_of_le_of_lt (Nat.mod_le _ _) x.isLt)
  | sdiv =>
    simp only [fold, smt, toNat_eq_zero_iff, signed_toNat]
    split
    · rename_i zero
      have sign : x.slt 0#w = decide (x.toInt < 0) := by simp [BitVec.slt]
      rw [zero, smtSDiv_zero, sign]
      by_cases negative : x.toInt < 0 <;> simp [negative, ofNat_mask]
    · rename_i nonzero
      rw [ofNat_truncate, ofInt_tdiv x y nonzero]
  | srem =>
    simp only [fold, smt, toNat_eq_zero_iff, signed_toNat]
    split
    · rename_i zero
      simp [zero]
    · rw [ofNat_truncate, ofInt_tmod]
  | and =>
    apply eq_of_toNat_eq
    simp [fold, smt]
  | or =>
    apply eq_of_toNat_eq
    simp [fold, smt]
  | xor =>
    apply eq_of_toNat_eq
    simp [fold, smt]
  | shl =>
    simp only [fold, smt]
    split
    · rename_i past
      exact (shiftLeft_eq_zero past).symm
    · apply eq_of_toNat_eq
      rw [truncate_ofNat, toNat_ofNat, Nat.mod_mod, shiftLeft_eq, toNat_shiftLeft]
  | lshr =>
    simp only [fold, smt]
    split
    · rename_i past
      exact (ushiftRight_eq_zero past).symm
    · apply eq_of_toNat_eq
      rw [toNat_ofNat, ushiftRight_eq, toNat_ushiftRight]
      exact Nat.mod_eq_of_lt (lt_of_le_of_lt (Nat.shiftRight_le _ _) x.isLt)
  | ashr =>
    simp only [fold, smt, signed_toNat]
    split
    · rename_i past
      rw [sshiftRight_of_le x past]
      split <;> simp [ofNat_mask]
    · rw [ofNat_truncate]
      rfl

lemma Compare.fold_eq (op : Compare) (x y : BitVec w) : op.fold w x.toNat y.toNat = op.smt x y := by
  cases op <;> simp only [fold, smt, signed_toNat]
  case eq => rw [Bool.eq_iff_iff]; simp [toNat_inj]
  case ne => rw [Bool.eq_iff_iff]; simp [toNat_inj]
  all_goals rfl

end Formula

end Faultline
