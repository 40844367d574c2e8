/-
# Proofs.Circuit.Bits — lists of bits as numbers

Bits are listed from the least significant one on. `number` is the number of a
list of bits and `bits` the list of a word; `number_bits` and `eq_bits` say that
they are inverse to each other at a given length.
-/
import Mathlib

namespace Faultline.Circuit

open List

def number : List Bool → Nat
  | [] => 0
  | v :: vs => v.toNat + 2 * number vs

def bits {n : Nat} (v : BitVec n) : List Bool :=
  (range n).map v.getLsbD

variable {us vs : List Bool} {n : Nat}

lemma number_lt (vs : List Bool) : number vs < 2 ^ vs.length := by
  induction vs with
  | nil => exact Nat.one_pos
  | cons v vs ih =>
    have bit := v.toNat_lt
    simp only [number, length_cons, Nat.pow_succ]
    omega

lemma number_inj (sameLength : us.length = vs.length) (same : number us = number vs) : us = vs := by
  induction us generalizing vs with
  | nil => exact (length_eq_zero_iff.1 sameLength.symm).symm
  | cons u us ih =>
    cases vs with
    | nil => cases sameLength
    | cons v vs =>
      have lowU := u.toNat_lt
      have lowV := v.toNat_lt
      simp only [number] at same
      rw [ih (Nat.succ.inj sameLength) (by omega)]
      have bit : u.toNat = v.toNat := by omega
      congr 1
      revert bit
      cases u <;> cases v <;> decide

lemma number_append (us vs : List Bool) : number (us ++ vs) = number us + 2 ^ us.length * number vs := by
  induction us with
  | nil => simp [number]
  | cons u us ih =>
    simp only [cons_append, number, ih, length_cons, Nat.pow_succ]
    ring

@[simp] lemma number_replicate_false (n : Nat) : number (replicate n false) = 0 := by
  induction n with
  | zero => rfl
  | succ n ih => simp [replicate_succ, number, ih]

lemma number_map_not (vs : List Bool) : number (vs.map (!·)) + number vs + 1 = 2 ^ vs.length := by
  induction vs with
  | nil => rfl
  | cons v vs ih =>
    have bit : (!v).toNat + v.toNat = 1 := by cases v <;> rfl
    simp only [map_cons, number, length_cons, Nat.pow_succ]
    omega

lemma number_take (vs : List Bool) (k : Nat) : number (vs.take k) = number vs % 2 ^ k := by
  rcases Nat.lt_or_ge vs.length k with short | long
  · rw [take_of_length_le short.le, Nat.mod_eq_of_lt]
    exact (number_lt vs).trans_le (Nat.pow_le_pow_right two_pos short.le)
  · have whole := number_append (vs.take k) (vs.drop k)
    have low := number_lt (vs.take k)
    rw [take_append_drop, length_take_of_le long] at whole
    rw [length_take_of_le long] at low
    rw [whole, Nat.add_mul_mod_self_left, Nat.mod_eq_of_lt low]

lemma testBit_number (vs : List Bool) (i : Nat) : (number vs).testBit i = vs.getD i false := by
  induction vs generalizing i with
  | nil => simp [number]
  | cons v vs ih =>
    have bit := v.toNat_lt
    cases i with
    | zero => cases v <;> simp [number]
    | succ i =>
      rw [Nat.testBit_succ, getD_cons_succ, ← ih, number]
      congr 1
      omega

/-! ## Words -/

@[simp] lemma length_bits (v : BitVec n) : (bits v).length = n := by
  simp [bits]

lemma getElem_bits (v : BitVec n) {i : Nat} (inside : i < (bits v).length) :
    (bits v)[i] = v.getLsbD i := by
  simp [bits]

@[simp] lemma number_bits (v : BitVec n) : number (bits v) = v.toNat := by
  refine Nat.eq_of_testBit_eq fun i => ?_
  rw [testBit_number, BitVec.testBit_toNat]
  rcases Nat.lt_or_ge i n with inside | outside
  · rw [getD_eq_getElem _ _ (by simpa using inside), getElem_bits]
  · rw [getD_eq_default _ _ (by simpa using outside), BitVec.getLsbD_of_ge _ _ outside]

/-- The bits of a word are the only ones of their length with its number. -/
lemma eq_bits {v : BitVec n} (length : vs.length = n) (same : number vs = v.toNat) : vs = bits v :=
  number_inj (by simpa using length) (by simpa using same)

lemma eq_bits_ofNat (length : vs.length = n) : vs = bits (BitVec.ofNat n (number vs)) :=
  eq_bits length (by rw [BitVec.toNat_ofNat, Nat.mod_eq_of_lt (length ▸ number_lt vs)])

end Faultline.Circuit
