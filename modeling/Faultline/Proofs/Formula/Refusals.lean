/-
# Proofs.Formula.Refusals — what an overflow predicate can be refused for

Nothing refuses an overflow predicate of two owned operands of one width whose
double is a word of 64 bits, but that a constant of `widthLimit` bits or more cannot
be stored. Every constant that is there could be stored, so what remains are the
extensions of the operands, if one of them is a constant (`Overlong`), and the zero
that the high half of a product is compared with.
-/
import Faultline.Proofs.Formula.Overflow

namespace Faultline.Formula

variable {a b : Arena} {f g w k : Nat} {n : Node} {owned : Multiset Handle} {safe : Prop} {P : Handle → Prop}
  {make : Build Handle}

lemma Arena.Grows.isConst_iff (grows : a.Grows b) (found : a.node? f = some n) : b.IsConst f ↔ a.IsConst f := by
  unfold IsConst
  rw [grows.node found, found]

lemma release_supplied (fs : List Handle) (supplied : a.Supplied safe P (↑fs + owned)) :
    Ends a (release fs) (fun _ b => a.Grows b ∧ b.Supplied safe P owned) (fun _ _ => False) :=
  (release_granted fs supplied.wellFormed supplied.tame supplied.backed).imp
    fun _ _ h => ⟨h.1.grows, h.1.wellFormed, h.2.1, h.2.2⟩

/-- A constant operand would have to be stored with `n` bits, and cannot be. -/
def Arena.Overlong (a : Arena) (f g : Handle) (n : Nat) : Prop :=
  (a.IsConst f ∨ a.IsConst g) ∧ widthLimit ≤ n

/-- The call returns a word unless it is stuck: then a constant is too wide. -/
def Arena.Answers (safe : Prop) (P : Handle → Prop) (a : Arena) (owned : Multiset Handle) (call : Build Handle)
    (stuck : Prop) {n : Nat} (value : (Handle → Nat) → BitVec n) : Prop :=
  Ends a call (fun r b => a.Hands safe P owned r b value ∧ ¬ stuck)
    (fun e b => b.Supplied safe P owned ∧ e = .constTooWide ∧ stuck)

section Predicates

variable {n m : Nat} {x y : (Handle → Nat) → BitVec w} {value value' : (Handle → Nat) → BitVec n} {stuck stuck' : Prop}

lemma Arena.Answers.congr {call : Build Handle} (answers : a.Answers safe P owned call stuck value)
    (same : ∀ assign, value assign = value' assign) (iff : stuck ↔ stuck') : a.Answers safe P owned call stuck' value' :=
  Ends.mono answers (fun _ _ h => ⟨h.1.congr same, fun holds => h.2 (iff.2 holds)⟩)
    fun _ _ h => ⟨h.1, h.2.1, iff.1 h.2.2⟩

lemma Arena.Answers.drop_false {call : Build Handle} (answers : a.Answers safe P owned call (stuck ∨ False) value) :
    a.Answers safe P owned call stuck value :=
  answers.congr (fun _ => rfl) (iff_of_eq (or_false stuck))

variable (supplied : a.Supplied safe P owned)

include supplied

/-- An intermediate term is given back after its use, whether the use returns or is refused. -/
lemma keeping_answers {rest : Handle → Build Handle} {z : (Handle → Nat) → BitVec m}
    {R : Handle → Arena → Prop} {F : Prop}
    (first : Ends a make (fun s b => a.Hands safe P owned s b z ∧ R s b) fun e b => e = .constTooWide ∧ a = b ∧ F)
    (failed : F → stuck)
    (next : ∀ s b, a.Hands safe P owned s b z → R s b → b.Answers safe P (s ::ₘ owned) (rest s) stuck value) :
    a.Answers safe P owned (keeping make rest) stuck value := by
  refine Ends.bind (first.blame fun e b h => ?_) fun s b h => ?_
  · obtain ⟨rfl, rfl, stopped⟩ := h
    exact ⟨supplied, rfl, failed stopped⟩
  obtain ⟨made, facts⟩ := h
  refine holding_ends (Ends.mono (next s b made facts) (fun r c h => ?_) fun e c h => ?_)
  · obtain ⟨hands, free⟩ := h
    have back := hands.supplied
    rw [Multiset.cons_swap, cons_eq_add] at back
    refine (release_supplied [s] back).mono (fun _ d h => ⟨?_, free⟩) fun _ _ h => h.elim
    have later := hands.has.later hands.supplied h.1
    exact ⟨(made.grows.trans hands.grows).trans h.1, h.2, later.width, later.value⟩
  · exact (release_supplied [s] (cons_eq_add s owned ▸ h.1)).mono (fun _ _ kept => ⟨kept.2, h.2⟩) fun _ _ h => h.elim

lemma granting_answers {rest : Handle → Build Handle} {z : (Handle → Nat) → BitVec m}
    (first : Ends a make (fun s b => a.Hands safe P owned s b z) fun _ _ => False)
    (next : ∀ s b, a.Hands safe P owned s b z → b.Answers safe P (s ::ₘ owned) (rest s) stuck value) :
    a.Answers safe P owned (keeping make rest) stuck value :=
  keeping_answers supplied (R := fun _ _ => True) (F := False)
    (first.mono (fun _ _ h => ⟨h, trivial⟩) fun _ _ h => h.elim) False.elim fun s b made _ => next s b made

lemma compare_answers (op : Compare) (left : a.Has owned f x) (right : a.Has owned g y) :
    a.Answers safe P owned (compare op f g) False fun assign => BitVec.ofBool (op.smt (x assign) (y assign)) :=
  (binary_hands supplied (.compare op) left right).granted.imp fun _ _ h => ⟨h, id⟩

lemma bit_hands {i : Nat} (left : a.Has owned f x) (inside : i < w) :
    Ends a (extract f i i) (fun r b => a.Hands safe P owned r b fun assign => BitVec.ofBool ((x assign).getLsbD i))
      (fun _ _ => False) := by
  refine (extract_hands supplied left (le_refl i) inside).imp fun r b h => ?_
  refine h.1.retype _ (by omega) fun assign => ?_
  rw [toNat_extractLsb_self, BitVec.toNat_ofBool]

lemma topBitsDiffer_answers {z : (Handle → Nat) → BitVec (w + 1)} (has : a.Has owned f z) :
    a.Answers safe P owned (topBitsDiffer f w) False fun assign =>
      BitVec.ofBool ((z assign).getLsbD w != (z assign).getLsbD (w - 1)) := by
  refine granting_answers supplied (bit_hands supplied has (Nat.lt_succ_self w)) fun hi b high => ?_
  refine granting_answers high.supplied (bit_hands high.supplied (has.past supplied high) (i := w - 1) (by omega))
    fun lo c low => ?_
  refine (compare_answers low.supplied .ne (high.has.past high.supplied low) low.has).congr (fun assign => ?_) Iff.rfl
  cases (z assign).getLsbD w <;> cases (z assign).getLsbD (w - 1) <;> rfl

lemma highHalfSet_answers {z : (Handle → Nat) → BitVec (w + w)} (has : a.Has owned f z) (positive : 0 < w)
    (fits : w + w < twoPow 64) : a.Answers safe P owned (highHalfSet f w) (widthLimit ≤ w) fun assign =>
      BitVec.ofBool (Compare.smt .ne (BitVec.ofNat w ((z assign).toNat / 2 ^ w)) (BitVec.ofInt w 0)) := by
  have top : subWidth (addWidth w w) 1 = w + w - 1 := by
    have sum : addWidth w w = w + w := Nat.mod_eq_of_lt fits
    change w + w < widthRange at fits
    rw [sum, subWidth, Nat.sub_add_comm (by omega), Nat.add_mod_right, Nat.mod_eq_of_lt (by omega)]
  have cut : Ends a (extract f (w + w - 1) w)
      (fun r b => a.Hands safe P owned r b fun assign => BitVec.ofNat w ((z assign).toNat / 2 ^ w)) fun _ _ => False := by
    refine (extract_hands supplied has (by omega) (by omega)).imp fun r b h => h.1.retype _ (by omega) fun assign => ?_
    rw [BitVec.extractLsb_toNat, Nat.shiftRight_eq_div_pow, BitVec.toNat_ofNat, show w + w - 1 - w + 1 = w by omega]
  unfold highHalfSet
  rw [top]
  refine granting_answers supplied cut fun hi b high => ?_
  refine keeping_answers high.supplied (const_hands high.supplied 0 positive) id fun clear c zero narrow => ?_
  exact (compare_answers zero.supplied .ne (high.has.past high.supplied zero) zero.has).congr (fun _ => rfl)
    ⟨False.elim, fun wide => absurd narrow (Nat.not_lt.2 wide)⟩

lemma outgrowsLowHalf_answers {z : (Handle → Nat) → BitVec (w + w)} (has : a.Has owned f z) (positive : 0 < w)
    (fits : w + w < twoPow 64) : a.Answers safe P owned (outgrowsLowHalf f w) False fun assign =>
      BitVec.ofBool (Compare.smt .ne (z assign) (((z assign).setWidth w).signExtend (w + w))) := by
  have cut : Ends a (extract f (w - 1) 0)
      (fun r b => (a.Hands safe P owned r b fun assign => (z assign).setWidth w) ∧ (b.IsConst r → a.IsConst f))
      fun e b => e = .constTooWide ∧ a = b ∧ False := by
    refine (extract_hands supplied has (Nat.zero_le (w - 1)) (by omega)).mono
      (fun r b h => ⟨h.1.retype _ (by omega) fun assign => ?_, h.2⟩) fun _ _ h => h.elim
    rw [BitVec.extractLsb_toNat, Nat.shiftRight_zero, BitVec.toNat_setWidth, show w - 1 - 0 + 1 = w by omega]
  refine keeping_answers supplied cut id fun lo b low folds => ?_
  -- the low half is folded only if all bits are a constant, and that was stored
  refine keeping_answers low.supplied (ext_hands low.supplied true low.has fits) (fun wide => ?_)
    fun back c extended _ => ?_
  · exact absurd (has.width ▸ Builder.isConst_lt supplied.tame (folds wide.1)) (Nat.not_lt.2 wide.2)
  · exact compare_answers extended.supplied .ne ((has.past supplied low).past low.supplied extended) extended.has

variable (left : a.Has owned f x) (right : a.Has owned g y)

include left right

lemma matching_answers {body : Nat → Build Handle} (next : a.Answers safe P owned (body w) stuck value) :
    a.Answers safe P owned (sameWidth f g >>= body) stuck value := by
  have looks : Ends a (sameWidth f g) (fun n b => a = b ∧ w = n) (fun _ _ => False) := by
    unfold sameWidth
    refine Ends.bind (width_granted supplied.wellFormed (supplied.backed.pos left.mem)) ?_
    rintro _ _ ⟨rfl, rfl⟩
    refine Ends.bind (width_granted supplied.wellFormed (supplied.backed.pos right.mem)) ?_
    rintro _ _ ⟨rfl, rfl⟩
    exact need_bind (fun _ => Ends.pure ⟨rfl, left.width.symm⟩) fun differ => differ (left.width.trans right.width.symm)
  refine Ends.bind looks.granted ?_
  rintro _ _ ⟨rfl, rfl⟩
  exact next

/-- Both operands are extended, and an operation on them is tested. -/
lemma inWider_answers (withSign : Bool) (op : Arith) {test : Handle → Build Handle} (some : 0 < k)
    (fits : w + k < twoPow 64)
    (tests : ∀ {b : Arena} {owned : Multiset Handle} (z : Handle), b.Supplied safe P owned →
      b.Has owned z (fun assign => op.smt (widen withSign (x assign) (w + k)) (widen withSign (y assign) (w + k))) →
      b.Answers safe P owned (test z) stuck value) :
    a.Answers safe P owned (inWider (fun f k => (Builder.ext withSign f k).run) k op f g test)
      (a.Overlong f g (w + k) ∨ stuck) value := by
  obtain ⟨m, found⟩ := supplied.node right.mem
  refine keeping_answers supplied (ext_hands supplied withSign left fits) (fun wide => .inl ⟨.inl wide.1, wide.2⟩)
    fun u b first narrow => ?_
  have folds := first.grows.isConst_iff found
  refine keeping_answers first.supplied (ext_hands first.supplied withSign (right.past supplied first) fits)
    (fun wide => .inl ⟨.inr (folds.1 wide.1), wide.2⟩) fun v c second narrow' => ?_
  have short : ¬ a.Overlong f g (w + k) := by
    rintro ⟨isConst | isConst, wide⟩
    · exact absurd (narrow some isConst) (Nat.not_lt.2 wide)
    · exact absurd (narrow' some (folds.2 isConst)) (Nat.not_lt.2 wide)
  refine granting_answers second.supplied
    (binary_hands second.supplied (.arith op) (first.has.past first.supplied second) second.has) fun z d made => ?_
  exact (tests z made.supplied made.has).congr (fun _ => rfl) ⟨.inr, fun either => either.resolve_left short⟩

lemma uaddOverflow_answers (fits : w + 1 < twoPow 64) :
    a.Answers safe P owned (uaddOverflow f g) (a.Overlong f g (w + 1)) fun assign =>
      BitVec.ofBool ((x assign).uaddOverflow (y assign)) := by
  refine matching_answers supplied left right ?_
  refine (inWider_answers supplied left right false .add Nat.one_pos fits fun z supplied has => ?_).drop_false
  refine (bit_hands supplied has (Nat.lt_succ_self w)).granted.imp fun r c hands => ⟨hands.congr fun assign => ?_, id⟩
  exact congrArg BitVec.ofBool (carry_eq (x assign) (y assign))

lemma saddOverflow_answers (fits : w + 1 < twoPow 64) :
    a.Answers safe P owned (saddOverflow f g) (a.Overlong f g (w + 1)) fun assign =>
      BitVec.ofBool ((x assign).saddOverflow (y assign)) := by
  have positive : 0 < w := left.width ▸ supplied.width_pos left.mem
  refine matching_answers supplied left right ?_
  refine (inWider_answers supplied left right true .add Nat.one_pos fits fun z supplied has => ?_).drop_false
  refine (topBitsDiffer_answers supplied has).congr (fun assign => ?_) Iff.rfl
  exact congrArg BitVec.ofBool (topBits_sum (x assign) (y assign) positive)

lemma usubOverflow_answers :
    a.Answers safe P owned (usubOverflow f g) False fun assign => BitVec.ofBool ((x assign).usubOverflow (y assign)) :=
  matching_answers supplied left right (compare_answers supplied .ult left right)

lemma ssubOverflow_answers (fits : w + 1 < twoPow 64) :
    a.Answers safe P owned (ssubOverflow f g) (a.Overlong f g (w + 1)) fun assign =>
      BitVec.ofBool ((x assign).ssubOverflow (y assign)) := by
  have positive : 0 < w := left.width ▸ supplied.width_pos left.mem
  refine matching_answers supplied left right ?_
  refine (inWider_answers supplied left right true .sub Nat.one_pos fits fun z supplied has => ?_).drop_false
  refine (topBitsDiffer_answers supplied has).congr (fun assign => ?_) Iff.rfl
  exact congrArg BitVec.ofBool (topBits_difference (x assign) (y assign) positive)

lemma umulOverflow_answers (fits : w + w < twoPow 64) :
    a.Answers safe P owned (umulOverflow f g) (a.Overlong f g (w + w) ∨ widthLimit ≤ w) fun assign =>
      BitVec.ofBool ((x assign).umulOverflow (y assign)) := by
  have positive : 0 < w := left.width ▸ supplied.width_pos left.mem
  refine matching_answers supplied left right ?_
  refine inWider_answers supplied left right false .mul positive fits fun z supplied has => ?_
  refine (highHalfSet_answers supplied has positive fits).congr (fun assign => ?_) Iff.rfl
  exact congrArg BitVec.ofBool (highHalf_differs (x assign) (y assign))

lemma smulOverflow_answers (fits : w + w < twoPow 64) :
    a.Answers safe P owned (smulOverflow f g) (a.Overlong f g (w + w)) fun assign =>
      BitVec.ofBool ((x assign).smulOverflow (y assign)) := by
  have positive : 0 < w := left.width ▸ supplied.width_pos left.mem
  refine matching_answers supplied left right ?_
  refine (inWider_answers supplied left right true .mul positive fits fun z supplied has => ?_).drop_false
  refine (outgrowsLowHalf_answers supplied has positive fits).congr (fun assign => ?_) Iff.rfl
  exact congrArg BitVec.ofBool (product_ne_low (x assign) (y assign) positive)

end Predicates

end Faultline.Formula
