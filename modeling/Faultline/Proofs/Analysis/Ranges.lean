/-
# Proofs.Analysis.Ranges — a result that leaves its range

A sum, difference or product of words leaves its range if the number without a limit
is outside (`Leaves`). The overflow predicates compute exactly this
(`flags_eq_leaves`), whatever the width. On held operands of any width in any arena
in use, they give the exact answer or are refused, and refused exactly where a
constant is too wide to be stored (`overflow_exact`). That takes operands of half of
`widthLimit` bits or more, but there it happens (`product_refused`).
-/
import Faultline.Analysis.Condition
import Faultline.Proofs.Formula.Invariant
import Faultline.Proofs.Formula.Quiet
import Faultline.Proofs.Formula.Refusals

namespace Faultline.Analysis

open Formula (Arena Handle widthLimit)
open Sentinel (Guarded)
open Formula

/-- The result without a limit. -/
def exact : Guarded → Int → Int → Int
  | .add, x, y => x + y
  | .sub, x, y => x - y
  | .mul, x, y => x * y

/-- The result leaves the signed or the unsigned range of the words. -/
def Leaves (op : Guarded) (withSign : Bool) {w : Nat} (x y : BitVec w) : Prop :=
  if withSign then exact op x.toInt y.toInt < -2 ^ (w - 1) ∨ 2 ^ (w - 1) ≤ exact op x.toInt y.toInt
  else exact op x.toNat y.toNat < 0 ∨ 2 ^ w ≤ exact op x.toNat y.toNat

instance (op : Guarded) (withSign : Bool) {w : Nat} (x y : BitVec w) : Decidable (Leaves op withSign x y) :=
  inferInstanceAs (Decidable (if withSign then _ else _))

def flags (op : Guarded) (withSign : Bool) {w : Nat} (x y : BitVec w) : Bool :=
  match op, withSign with
  | .add, true => x.saddOverflow y
  | .add, false => x.uaddOverflow y
  | .sub, true => x.ssubOverflow y
  | .sub, false => x.usubOverflow y
  | .mul, true => x.smulOverflow y
  | .mul, false => x.umulOverflow y

lemma flags_eq_leaves (op : Guarded) (withSign : Bool) {w : Nat} (x y : BitVec w) :
    flags op withSign x y = decide (Leaves op withSign x y) := by
  have cast : ((2 ^ w : Nat) : Int) = 2 ^ w := by norm_cast
  have small := x.isLt
  cases withSign with
  | true =>
    have either : flags op true x y = (decide (exact op x.toInt y.toInt ≥ 2 ^ (w - 1)) ||
        decide (exact op x.toInt y.toInt < -2 ^ (w - 1))) := by
      cases op <;> rfl
    rw [either, Bool.or_comm, ← Bool.decide_or]
    rfl
  | false =>
    cases op with
    | add =>
      show x.uaddOverflow y = decide (((x.toNat : Int) + y.toNat < 0) ∨ 2 ^ w ≤ (x.toNat : Int) + y.toNat)
      rw [BitVec.uaddOverflow, decide_eq_decide, ← cast]
      omega
    | sub =>
      show x.usubOverflow y = decide (((x.toNat : Int) - y.toNat < 0) ∨ 2 ^ w ≤ (x.toNat : Int) - y.toNat)
      rw [BitVec.usubOverflow, decide_eq_decide, ← cast]
      omega
    | mul =>
      show x.umulOverflow y = decide (((x.toNat : Int) * y.toNat < 0) ∨ 2 ^ w ≤ (x.toNat : Int) * y.toNat)
      rw [BitVec.umulOverflow, decide_eq_decide, ← cast]
      norm_cast
      omega

/-! ## Any width -/

variable {a : Arena} {f g : Nat} {w : Nat} {P : Handle → Prop}

/-- The predicate has to make a constant that is too wide: a constant operand is extended, or the high half of an
unsigned product is compared with zero. -/
def Exceeds (a : Arena) (op : Guarded) (withSign : Bool) (f g : Handle) : Prop :=
  match op, withSign with
  | .add, _ => a.Overlong f g (a.widthOf f + 1)
  | .sub, true => a.Overlong f g (a.widthOf f + 1)
  | .sub, false => False
  | .mul, true => a.Overlong f g (2 * a.widthOf f)
  | .mul, false => a.Overlong f g (2 * a.widthOf f) ∨ widthLimit ≤ a.widthOf f

lemma Exceeds.wide {op : Guarded} {withSign : Bool} (exceeds : Exceeds a op withSign f g) (positive : 0 < a.widthOf f) :
    widthLimit ≤ 2 * a.widthOf f := by
  cases op <;> cases withSign
  · have := exceeds.2; omega
  · have := exceeds.2; omega
  · exact exceeds.elim
  · have := exceeds.2; omega
  · rcases exceeds with overlong | wide
    · exact overlong.2
    · omega
  · exact exceeds.2

def wider (op : Guarded) (withSign : Bool) (w : Nat) : Nat :=
  match op, withSign with
  | .add, _ => w + 1
  | .sub, true => w + 1
  | .sub, false => w
  | .mul, _ => w + w

lemma wider_le (op : Guarded) (withSign : Bool) (positive : 0 < w) : wider op withSign w ≤ w + w := by
  cases op <;> cases withSign <;> simp only [wider] <;> omega

lemma overflow_answers {safe : Prop} {owned : Multiset Handle}
    {x y : (Handle → Nat) → BitVec w} (op : Guarded) (withSign : Bool) (supplied : a.Supplied safe P owned)
    (left : a.Has owned f x) (right : a.Has owned g y) (fits : wider op withSign w < twoPow 64) :
    a.Answers safe P owned (overflow op withSign f g) (Exceeds a op withSign f g) fun assign =>
      BitVec.ofBool (decide (Leaves op withSign (x assign) (y assign))) := by
  have answers : a.Answers safe P owned (overflow op withSign f g) (Exceeds a op withSign f g) fun assign =>
      BitVec.ofBool (flags op withSign (x assign) (y assign)) := by
    unfold Exceeds
    rw [left.width, Nat.two_mul]
    cases op <;> cases withSign
    · exact uaddOverflow_answers supplied left right fits
    · exact saddOverflow_answers supplied left right fits
    · exact usubOverflow_answers supplied left right
    · exact ssubOverflow_answers supplied left right fits
    · exact umulOverflow_answers supplied left right fits
    · exact smulOverflow_answers supplied left right fits
  exact answers.congr (fun assign => congrArg _ (flags_eq_leaves op withSign _ _)) Iff.rfl

lemma overflow_gives {owned : Multiset Handle} {x y : (Handle → Nat) → BitVec w}
    (op : Guarded) (withSign : Bool) (stocked : a.Stocked P owned) (narrow : w + w < widthLimit)
    (left : a.Has owned f x) (right : a.Has owned g y) :
    Ends a (overflow op withSign f g) (fun r b => a.Gives P owned r b fun assign =>
      BitVec.ofBool (decide (Leaves op withSign (x assign) (y assign)))) (fun _ _ => False) := by
  have small : widthLimit < twoPow 64 := by decide
  have positive : 0 < a.widthOf f := stocked.toSupplied.width_pos left.mem
  have fits := (wider_le op withSign (left.width ▸ positive)).trans_lt (narrow.trans small)
  refine Ends.mono (overflow_answers op withSign stocked.toSupplied left right fits)
    (fun r b h => h.1.gives stocked) fun e b h => ?_
  have wide := h.2.2.wide positive
  rw [left.width] at wide
  omega

/-- **The overflow predicates are exact.** For two held formulas of one width whose double is a word of 64 bits, in
any arena in use, each of the six predicates returns a formula of one bit. It is one under an assignment exactly if
the number without a limit leaves the range, and the operands have the same values as before. The only exception is
that the predicate has to make a constant that cannot be stored; then it is refused for that. Operands whose double
width can be stored are never affected. -/
theorem overflow_exact (reached : a.Reachable) (left : 0 < a.count f) (right : 0 < a.count g)
    (same : a.widthOf g = a.widthOf f) (fits : 2 * a.widthOf f < twoPow 64) (op : Guarded) (withSign : Bool) :
    (¬ Exceeds a op withSign f g → ∃ r b, outcome (overflow op withSign f g) a = (.ok r, b) ∧ b.Realized r ∧
      0 < b.count r ∧ b.widthOf r = 1 ∧
      ∀ assign, b.eval assign f = a.eval assign f ∧ b.eval assign g = a.eval assign g ∧
        b.eval assign r = if Leaves op withSign (BitVec.ofNat (a.widthOf f) (a.eval assign f))
          (BitVec.ofNat (a.widthOf f) (a.eval assign g)) then 1 else 0) ∧
    (Exceeds a op withSign f g → ∃ b, outcome (overflow op withSign f g) a = (.error .constTooWide, b)) ∧
    (2 * a.widthOf f < widthLimit → ¬ Exceeds a op withSign f g) := by
  obtain ⟨owned, order⟩ := reached.tidy
  have supplied := order.supplied
  have hasLeft : a.Has owned f _ := .of_mem (order.mem left) rfl
  have hasRight : a.Has owned g _ := .of_mem (order.mem right) same
  have positive := supplied.width_pos hasLeft.mem
  have fits := (wider_le op withSign positive).trans_lt (Nat.two_mul _ ▸ fits)
  have answers := Ends.iff_forall.1 (overflow_answers op withSign supplied hasLeft hasRight fits)
  rcases run : outcome (overflow op withSign f g) a with ⟨e | r, b⟩
  · obtain ⟨-, rfl, exceeds⟩ := answers.2 e b run
    refine ⟨fun free => absurd exceeds free, fun _ => ⟨b, rfl⟩, fun narrow => ?_⟩
    exact absurd (exceeds.wide positive) (Nat.not_le.2 narrow)
  · obtain ⟨hands, free⟩ := answers.1 r b run
    have counted := hands.supplied.backed.pos (Multiset.mem_cons_self r _)
    refine ⟨fun _ => ⟨r, b, rfl, Formula.Arena.realized_of_count hands.supplied.wellFormed counted, counted, hands.width,
      fun assign => ⟨?_, ?_, ?_⟩⟩, fun exceeds => absurd exceeds free, fun _ => free⟩
    · obtain ⟨n, found⟩ := supplied.node hasLeft.mem
      exact Formula.Arena.eval_of_grows reached.wellFormed.toWellTyped hands.grows found
    · obtain ⟨n, found⟩ := supplied.node hasRight.mem
      exact Formula.Arena.eval_of_grows reached.wellFormed.toWellTyped hands.grows found
    · rw [hands.value assign, BitVec.toNat_ofBool]
      split <;> simp_all

def ofWidth (w : Nat) : Arena :=
  ({} : Arena).after (.call (.var w "x"))

lemma ofWidth_variable (positive : 0 < w) :
    (ofWidth w).Reachable ∧ (ofWidth w).count 1 = 1 ∧ (ofWidth w).widthOf 1 = w := by
  refine ⟨Arena.Reachable.start.step _, ?_⟩
  unfold ofWidth
  rw [Arena.after_var rfl positive]
  exact ⟨rfl, rfl⟩

/-- The square of a single bit leaves the signed range where the bit is set: minus one has no square there. -/
theorem overflow_exact_bit : (ofWidth 1).Reachable ∧ 0 < (ofWidth 1).count 1 ∧ (ofWidth 1).widthOf 1 = 1 ∧
    ∃ r b, outcome (overflow .mul true 1 1) (ofWidth 1) = (.ok r, b) ∧
      ∀ assign, b.eval assign r = (ofWidth 1).eval assign 1 := by
  obtain ⟨reached, counted, width⟩ := ofWidth_variable Nat.one_pos
  have live : 0 < (ofWidth 1).count 1 := counted ▸ Nat.one_pos
  obtain ⟨granted, -, free⟩ :=
    overflow_exact reached live live rfl (by rw [width]; decide) .mul true
  obtain ⟨r, b, run, -, -, -, value⟩ := granted (free (by rw [width]; decide))
  refine ⟨reached, live, width, r, b, run, fun assign => (value assign).2.2.trans ?_⟩
  have small := (ofWidth 1).eval_lt assign 1
  rw [width] at small ⊢
  generalize (ofWidth 1).eval assign 1 = n at small
  revert n
  decide

/-- The high half of a square of `2 ^ 51` bits cannot be compared with zero. -/
theorem product_refused : ∃ (a : Arena) (f : Handle), a.Reachable ∧ 0 < a.count f ∧ 0 < a.widthOf f ∧
    2 * a.widthOf f < twoPow 64 ∧ ∃ b, outcome (Formula.umulOverflow f f) a = (.error .constTooWide, b) := by
  obtain ⟨reached, counted, width⟩ := ofWidth_variable (w := twoPow 51) (by decide)
  have live : 0 < (ofWidth (twoPow 51)).count 1 := counted ▸ Nat.one_pos
  have fits : 2 * (ofWidth (twoPow 51)).widthOf 1 < twoPow 64 := by
    rw [width]
    decide
  refine ⟨_, 1, reached, live, by rw [width]; decide, fits, ?_⟩
  obtain ⟨owned, order⟩ := reached.tidy
  have has : (ofWidth (twoPow 51)).Has owned 1 _ := .of_mem (order.mem live) rfl
  rw [Nat.two_mul] at fits
  have answers := Ends.iff_forall.1 (overflow_answers .mul false order.supplied has has fits)
  have exceeds : Exceeds (ofWidth (twoPow 51)) .mul false 1 1 := by
    refine .inr ?_
    rw [width]
    decide
  rcases run : outcome (overflow .mul false 1 1) (ofWidth (twoPow 51)) with ⟨e | r, b⟩
  · obtain ⟨-, rfl, -⟩ := answers.2 e b run
    exact ⟨b, run⟩
  · exact absurd exceeds (answers.1 r b run).2

end Faultline.Analysis
