/-
# Proofs.Circuit.Shift — the barrel shifter

Stage `i` of the barrel moves by `2 ^ i` places if bit `i` of the amount is set. Moves
add up, so as long as the amount is below the width the stages together move by the
amount. Stages for weights of the width or more are left out; an amount that needs
them is at least the width, and the last choice covers it.
-/
import Faultline.Proofs.Circuit.Word

namespace Faultline.Circuit

open Word (Shift moved)
open List

variable {c : Circuit} {assign : Nat → Bool} {l : Lit} {b : Bool} {x y : Word} {vs as : List Bool}
  {n : Nat} {u v : BitVec n} {i : Nat}

/-! ## Moves -/

section Moves

variable {α : Type} (kind : Shift) (fill : α) (k : Nat) (xs : List α)

@[simp] lemma length_moved : (moved kind fill k xs).length = xs.length := by
  cases kind
  · simp [moved]
  · simp [moved]
    omega

lemma getElem?_moved (inside : i < xs.length) :
    (moved kind fill k xs)[i]? = some (match kind with
      | .left => if i < k then fill else xs.getD (i - k) fill
      | .right => xs.getD (i + k) fill) := by
  cases kind
  · simp only [moved, getElem?_take, if_pos inside, getElem?_append, length_replicate]
    split
    · rw [getElem?_replicate_of_lt ‹_›]
    · rw [getD_eq_getElem _ _ (by omega), getElem?_eq_getElem (by omega)]
  · simp only [moved, getElem?_append, length_drop]
    split
    · rw [getElem?_drop, getD_eq_getElem _ _ (by omega), Nat.add_comm,
        getElem?_eq_getElem (by omega)]
    · rw [getElem?_replicate_of_lt (by omega), getD_eq_default _ _ (by omega)]

lemma moved_zero : moved kind fill 0 xs = xs := by
  cases kind <;> simp [moved]

lemma getD_moved (inside : i < xs.length) :
    (moved kind fill k xs).getD i fill = match kind with
      | .left => if i < k then fill else xs.getD (i - k) fill
      | .right => xs.getD (i + k) fill := by
  rw [getD_eq_getElem?_getD, getElem?_moved kind fill k xs inside]
  rfl

lemma moved_moved (j : Nat) : moved kind fill j (moved kind fill k xs) = moved kind fill (k + j) xs := by
  refine ext_getElem? fun i => ?_
  rcases Nat.lt_or_ge i xs.length with inside | outside
  · rw [getElem?_moved _ _ _ _ (by simpa using inside), getElem?_moved _ _ _ _ inside]
    congr 1
    cases kind
    · dsimp only
      rw [getD_moved _ _ _ _ (by omega)]
      dsimp only
      rw [Nat.sub_sub, Nat.add_comm j k]
      split_ifs <;> first | rfl | omega
    · dsimp only
      rcases Nat.lt_or_ge (i + j) xs.length with near | far
      · rw [getD_moved _ _ _ _ near, Nat.add_assoc, Nat.add_comm j k]
      · rw [getD_eq_default _ _ (by simpa using far), getD_eq_default _ _ (by omega)]
  · rw [getElem?_eq_none (by simpa using outside), getElem?_eq_none (by simpa using outside)]

lemma moved_of_length_le (far : xs.length ≤ k) : moved kind fill k xs = replicate xs.length fill := by
  cases kind
  · simp [moved, take_append_of_le_length, far]
  · simp [moved, drop_eq_nil_of_le far, far]

end Moves

lemma Spells.moved (spells : Spells assign c x vs) (shows : Shows assign c l b) (kind : Shift) (k : Nat) :
    Spells assign c (moved kind l k x) (Word.moved kind b k vs) := by
  cases kind
  · simp only [Word.moved, spells.length_eq]
    exact ((Spells.replicate shows k).append spells).take _
  · simp only [Word.moved, spells.length_eq]
    exact (spells.drop k).append (Spells.replicate shows _)

/-- The stages from weight `k` on move by `k` times the amount, if that is below the width. -/
lemma barrel_yields (shows : Shows assign c l b) (amount : Spells assign c y as)
    (spells : Spells assign c x vs) (kind : Shift) (k : Nat) :
    Yields c (Word.barrel kind l y k x) (fun z d => ∃ us, Spells assign d z us ∧ us.length = vs.length ∧
      (k * number as < vs.length → us = moved kind b (k * number as) vs)) := by
  induction y generalizing c as x vs k with
  | nil =>
    cases amount
    exact .pure fun _ => ⟨vs, spells, rfl, fun _ => (moved_zero kind b vs).symm⟩
  | cons s y ih =>
    cases amount with
    | @cons _ q _ as here amount =>
      have weight : k * number (q :: as) = k * q.toNat + 2 * k * number as := by
        rw [number]
        ring
      unfold Word.barrel
      split
      · refine (mux_yields here (spells.moved shows kind k) spells (by simp)).bind
          fun z c₁ grown stage => ?_
        refine (ih (shows.grow grown) (Spells.grow amount grown) stage (2 * k)).mono fun z d _ rest => ?_
        obtain ⟨us, spellsU, length, moves⟩ := rest
        have same : (if q then moved kind b k vs else vs).length = vs.length := by
          split <;> simp
        rw [same] at length moves
        refine ⟨us, spellsU, length, fun below => ?_⟩
        rw [weight] at below ⊢
        rw [moves (by omega)]
        cases q
        · simp
        · simp [moved_moved]
      · rename_i far
        rw [spells.length_eq] at far
        refine .pure fun _ => ⟨vs, spells, rfl, fun below => ?_⟩
        -- A weight of the width or more leaves only the amount zero.
        have none : number (q :: as) = 0 := by
          by_contra some
          have := Nat.le_mul_of_pos_right k (Nat.pos_of_ne_zero some)
          omega
        rw [none, Nat.mul_zero, moved_zero]

lemma ofNat_holds (ordered : c.Ordered) (n v : Nat) : Holds assign c (Word.ofNat n v) (BitVec.ofNat n v) := by
  have same : bits (BitVec.ofNat n v) = (range n).map v.testBit := by
    refine map_congr_left fun i mem => ?_
    rw [BitVec.getLsbD_ofNat, decide_eq_true (mem_range.1 mem), Bool.true_and]
  rw [Holds, same, Spells, Word.ofNat, forall₂_map_left_iff, forall₂_map_right_iff,
    forall₂_same]
  exact fun i _ => shows_ofBool ordered _

/-- A shift moves by the amount, however large. -/
lemma shift_yields (shows : Shows assign c l b) (spells : Spells assign c x vs)
    (amount : Spells assign c y as) (length : as.length = vs.length) (kind : Shift) :
    Yields c (Word.shift kind l x y) (fun z d => Spells assign d z (moved kind b (number as) vs)) := by
  refine (barrel_yields shows amount spells kind 1).bind fun z c₁ grown₁ stages => ?_
  obtain ⟨us, spellsU, lengthU, moves⟩ := stages
  rw [Nat.one_mul] at moves
  refine .of_ordered fun ordered => ?_
  refine (ult_yields_number (amount.grow grown₁) (ofNat_holds ordered y.length x.length)
    (by simp [amount.length_eq])).bind fun t c₂ grown₂ below => ?_
  have width : number (bits (BitVec.ofNat y.length x.length)) = vs.length := by
    rw [number_bits, BitVec.toNat_ofNat, spells.length_eq, amount.length_eq, length,
      Nat.mod_eq_of_lt Nat.lt_two_pow_self]
  rw [width] at below
  refine (mapM_yields (fun more here => choice_yields (below.not.grow more)
    (((shows.grow grown₁).grow grown₂).grow more) here) (spellsU.grow grown₂)).mono fun z d _ chosen => ?_
  have result : us.map (fun u => if !decide (number as < vs.length) then b else u) =
      moved kind b (number as) vs := by
    by_cases near : number as < vs.length
    · simp only [near, decide_true, Bool.not_true, Bool.false_eq_true, if_false]
      rw [← moves near, map_id']
    · simp only [near, decide_false, Bool.not_false, if_true]
      rw [moved_of_length_le kind b _ _ (Nat.le_of_not_lt near), map_const', lengthU]
  rwa [result] at chosen

/-! ## The three shifts -/

lemma bits_eq_moved {w : BitVec n} (kind : Shift) (fill : Bool) (k : Nat)
    (places : ∀ i, i < n → w.getLsbD i = match kind with
      | .left => if i < k then fill else v.getLsbD (i - k)
      | .right => if i + k < n then v.getLsbD (i + k) else fill) :
    bits w = moved kind fill k (bits v) := by
  refine ext_getElem? fun i => ?_
  rcases Nat.lt_or_ge i n with inside | outside
  · rw [getElem?_moved _ _ _ _ (by simpa using inside), getElem?_eq_getElem (by simpa using inside),
      getElem_bits, places i inside]
    congr 1
    cases kind
    · dsimp only
      rw [getD_eq_getElem _ _ (by simp; omega), getElem_bits]
    · dsimp only
      split
      · rw [getD_eq_getElem _ _ (by simpa), getElem_bits]
      · rw [getD_eq_default _ _ (by simp; omega)]
  · rw [getElem?_eq_none (by simpa using outside), getElem?_eq_none (by simpa using outside)]

lemma shl_yields (left : Holds assign c x u) (right : Holds assign c y v) :
    Yields c (Word.shift .left .no x y) (fun z d => Holds assign d z (BitVec.shiftLeft u v.toNat)) := by
  refine .of_ordered fun ordered => ?_
  refine (shift_yields (shows_no ordered) left right (by simp) .left).mono fun z d _ spells => ?_
  rw [number_bits] at spells
  rw [Holds, bits_eq_moved .left false v.toNat fun i inside => ?_]
  · exact spells
  · show (u <<< v.toNat).getLsbD i = _
    rw [BitVec.getLsbD_shiftLeft, decide_eq_true inside, Bool.true_and]
    dsimp only
    split <;> simp [*]

lemma lshr_yields (left : Holds assign c x u) (right : Holds assign c y v) :
    Yields c (Word.shift .right .no x y) (fun z d => Holds assign d z (BitVec.ushiftRight u v.toNat)) := by
  refine .of_ordered fun ordered => ?_
  refine (shift_yields (shows_no ordered) left right (by simp) .right).mono fun z d _ spells => ?_
  rw [number_bits] at spells
  rw [Holds, bits_eq_moved .right false v.toNat fun i inside => ?_]
  · exact spells
  · show (u >>> v.toNat).getLsbD i = _
    rw [BitVec.getLsbD_ushiftRight, Nat.add_comm]
    dsimp only
    split
    · rfl
    · exact BitVec.getLsbD_of_ge _ _ (by omega)

lemma ashr_yields (left : Holds assign c x u) (right : Holds assign c y v) :
    Yields c (Word.shift .right x.sign x y) (fun z d => Holds assign d z (BitVec.sshiftRight u v.toNat)) := by
  refine .of_ordered fun ordered => ?_
  refine (shift_yields (left.sign ordered) left right (by simp) .right).mono fun z d _ spells => ?_
  rw [number_bits] at spells
  rw [Holds, bits_eq_moved .right u.msb v.toNat fun i inside => ?_]
  · exact spells
  · rw [BitVec.getLsbD_sshiftRight, decide_eq_false (by omega), Bool.not_false, Bool.true_and, Nat.add_comm]

end Faultline.Circuit
