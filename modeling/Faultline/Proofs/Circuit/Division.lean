/-
# Proofs.Circuit.Division — restoring division

The dividend is taken from its most significant bit on. With the bits taken so far
as dividend, the quotient bits and the remainder so far keep

  dividend = divisor * quotient + remainder,   remainder < divisor

for a positive divisor. A divisor of zero fits at every place: all bits of the
quotient are set and the remainder takes up the dividend.
-/
import Faultline.Proofs.Circuit.Word
import Faultline.Proofs.Formula.Fold

namespace Faultline.Circuit

open List Bool

variable {c : Circuit} {assign : Nat → Bool} {l : Lit} {b : Bool} {x y r ny : Word}
  {rs vs ns : List Bool} {n divisor : Nat} {u v : BitVec n}

lemma number_reverse_cons (v : Bool) (vs : List Bool) :
    number (v :: vs).reverse = number vs.reverse + 2 ^ vs.length * v.toNat := by
  rw [reverse_cons, number_append, length_reverse]
  simp [number]

def divideStep (ny : Word) (l : Lit) (r : Word) : Draw (Lit × Word) := do
  let (diff, fits) ← Word.addCarry (l :: r) ny .yes
  let r ← Word.mux fits (diff.take r.length) ((l :: r).take r.length)
  pure (fits, r)

lemma divideFrom_cons (ny : Word) (l : Lit) (x r : Word) :
    Word.divideFrom ny (l :: x) r = (do
      let (fits, r) ← divideStep ny l r
      let (q, r) ← Word.divideFrom ny x r
      pure (fits :: q, r)) := by
  rw [Word.divideFrom, divideStep]
  simp only [bind_assoc, pure_bind]

lemma divideStep_yields (complement : Spells assign c ny ns) (width : ns.length = n + 1)
    (sum : number ns + divisor + 1 = 2 ^ (n + 1)) (remainder : Spells assign c r rs) (size : rs.length = n)
    (here : Shows assign c l b) :
    Yields c (divideStep ny l r)
      (fun out d => ∃ q ts, Shows assign d out.1 q ∧ Spells assign d out.2 ts ∧ ts.length = n ∧
        (q = true ↔ divisor ≤ 2 * number rs + b.toNat) ∧
        number ts = (2 * number rs + b.toNat - if q then divisor else 0) % 2 ^ n) := by
  refine .of_ordered fun ordered => ?_
  have shifted : Spells assign c (l :: r) (b :: rs) := .cons here remainder
  have length : r.length = n := remainder.length_eq.trans size
  refine (addCarry_yields shifted complement (by simp [width, size]) (shows_yes ordered)).bind
    fun out c₁ grown₁ added => ?_
  obtain ⟨ss, q, spells, count, fits, equation⟩ := added
  refine (mux_yields fits (spells.take r.length) ((shifted.grow grown₁).take r.length)
    (by simp [count])).bind fun t c₂ grown₂ chosen => .pure fun _ => ?_
  have low := number_lt ss
  have start : number (b :: rs) = 2 * number rs + b.toNat := by rw [number]; omega
  rw [count, length_cons, size] at low
  rw [start, length_cons, size, toNat_true] at equation
  refine ⟨q, _, fits.grow grown₂, chosen, ?_, ?_, ?_⟩
  · split <;> simp [count, size, length]
  · cases q
    · simp only [toNat_false] at equation
      simp only [false_eq_true, false_iff, not_le]
      omega
    · simp only [toNat_true] at equation
      simp only [true_iff]
      omega
  · cases q
    · simp only [false_eq_true, if_false]
      rw [number_take, length, start, Nat.sub_zero]
    · simp only [toNat_true] at equation
      simp only [if_true]
      rw [number_take, length]
      congr 1
      omega

/-- What the division leaves after taking the bits `vs` of the dividend, with the remainder `before`:
the quotient `q` and the remainder `after`. -/
structure Divided (divisor n before : Nat) (vs : List Bool) (q after : Nat) : Prop where
  positive : before < divisor →
    before * 2 ^ vs.length + number vs.reverse = divisor * q + after ∧ after < divisor
  zero : divisor = 0 → q + 1 = 2 ^ vs.length ∧
    after = (before * 2 ^ vs.length + number vs.reverse) % 2 ^ n

lemma Divided.cons {before next q after : Nat} {first : Bool} (fits : divisor < 2 ^ n)
    (fitsIff : first = true ↔ divisor ≤ 2 * before + b.toNat)
    (left : next = (2 * before + b.toNat - if first then divisor else 0) % 2 ^ n)
    (rest : Divided divisor n next vs q after) :
    Divided divisor n before (b :: vs) (q + 2 ^ vs.length * first.toNat) after := by
  have bit := b.toNat_lt
  have grows : 2 ^ (b :: vs).length = 2 ^ vs.length * 2 := Nat.pow_succ _ _
  refine ⟨fun small => ?_, fun none => ?_⟩
  · -- The next remainder is below the divisor, so nothing of it is cut.
    have whole : next + divisor * first.toNat = 2 * before + b.toNat ∧ next < divisor := by
      cases first
      · rw [if_neg (by simp), Nat.sub_zero] at left
        simp only [false_eq_true, false_iff, not_le] at fitsIff
        rw [Nat.mod_eq_of_lt (by omega)] at left
        simp only [toNat_false]
        omega
      · rw [if_pos rfl] at left
        simp only [true_iff] at fitsIff
        rw [Nat.mod_eq_of_lt (by omega)] at left
        simp only [toNat_true]
        omega
    obtain ⟨equation, bound⟩ := rest.positive whole.2
    refine ⟨?_, bound⟩
    have scaled : (next + divisor * first.toNat) * 2 ^ vs.length =
        (2 * before + b.toNat) * 2 ^ vs.length := by rw [whole.1]
    rw [number_reverse_cons, grows]
    linarith
  · subst none
    obtain rfl : first = true := fitsIff.2 (Nat.zero_le _)
    obtain ⟨ones, rest⟩ := rest.zero rfl
    refine ⟨?_, ?_⟩
    · rw [grows, toNat_true]
      omega
    · have cut : next ≡ 2 * before + b.toNat [MOD 2 ^ n] := by
        rw [left]
        exact Nat.mod_modEq _ _
      rw [rest, number_reverse_cons, grows]
      refine ((cut.mul_right _).add_right _).trans (congrArg (· % 2 ^ n) ?_)
      ring

lemma divideFrom_yields (complement : Spells assign c ny ns) (width : ns.length = n + 1)
    (sum : number ns + divisor + 1 = 2 ^ (n + 1)) (fits : divisor < 2 ^ n)
    (dividend : Spells assign c x vs) (remainder : Spells assign c r rs) (size : rs.length = n) :
    Yields c (Word.divideFrom ny x r) (fun out d => ∃ qs ts,
      Spells assign d out.1 qs ∧ qs.length = vs.length ∧ Spells assign d out.2 ts ∧ ts.length = n ∧
      Divided divisor n (number rs) vs (number qs.reverse) (number ts)) := by
  induction x generalizing c vs r rs with
  | nil =>
    cases dividend
    refine .pure fun _ => ⟨[], rs, .nil, rfl, remainder, size, ?_, ?_⟩
    · intro small
      simpa [number] using small
    · intro zero
      simp [number, Nat.mod_eq_of_lt (size ▸ number_lt rs)]
  | cons l x ih =>
    cases dividend with
    | @cons _ b _ vs here dividend =>
      rw [divideFrom_cons]
      refine (divideStep_yields complement width sum remainder size here).bind fun out c₁ grown step => ?_
      obtain ⟨q, ts, shows, spells, count, fitsIff, left⟩ := step
      refine (ih (complement.grow grown) (Spells.grow dividend grown) spells count).bind
        fun out' c₂ grown' rest => .pure fun _ => ?_
      obtain ⟨qs, ts', spellsQ, countQ, spellsT, countT, divided⟩ := rest
      refine ⟨q :: qs, ts', .cons (shows.grow grown') spellsQ, by simp [countQ], spellsT, countT, ?_⟩
      rw [number_reverse_cons, countQ]
      exact divided.cons fits fitsIff left

lemma udivrem_yields (left : Holds assign c x u) (right : Holds assign c y v) :
    Yields c (Word.udivrem x y)
      (fun out d => Holds assign d out.1 (BitVec.smtUDiv u v) ∧ Holds assign d out.2 (BitVec.umod u v)) := by
  refine .of_ordered fun ordered => ?_
  have length : x.length = n := left.length_eq
  have divisorSpells : Spells assign c (y ++ [.no]) (bits v ++ [false]) :=
    Spells.append right (.cons (shows_no ordered) .nil)
  have sum := number_map_not (bits v ++ [false])
  rw [number_append, number_bits] at sum
  simp only [number, toNat_false, Nat.mul_zero, Nat.add_zero, length_append, length_bits,
    length_singleton] at sum
  refine (divideFrom_yields (n := n) (Spells.not divisorSpells) (by simp) sum v.isLt
    (forall₂_reverse_iff.2 left) (Spells.zero ordered x.length) (by simp [length])).bind
      fun out d _ rest => .pure fun _ => ?_
  obtain ⟨qs, ts, spellsQ, countQ, spellsT, countT, positive, zero⟩ := rest
  rw [number_replicate_false, Nat.zero_mul, Nat.zero_add, reverse_reverse, number_bits] at positive zero
  rw [length_reverse, length_bits] at zero countQ
  have values : number qs.reverse = (BitVec.smtUDiv u v).toNat ∧ number ts = (BitVec.umod u v).toNat := by
    rw [BitVec.smtUDiv_eq]
    split
    · rename_i none
      obtain ⟨ones, rest⟩ := zero (by rw [none]; simp)
      refine ⟨?_, ?_⟩
      · rw [BitVec.toNat_allOnes]
        omega
      · rw [rest, Nat.mod_eq_of_lt u.isLt, none]
        simp
    · rename_i some
      have pos : 0 < v.toNat := Nat.pos_of_ne_zero fun none => some ((Formula.toNat_eq_zero_iff v).1 none)
      obtain ⟨equation, bound⟩ := positive pos
      obtain ⟨quotient, remainder⟩ := (Nat.div_mod_unique (a := u.toNat) (d := number qs.reverse) pos).2
        ⟨by rw [equation, Nat.add_comm], bound⟩
      exact ⟨quotient.symm, remainder.symm⟩
  exact ⟨Spells.holds (forall₂_reverse_iff.2 spellsQ) (by simpa using countQ) values.1,
    spellsT.holds countT values.2⟩

/-! ## With signs -/

def magnitude (v : BitVec n) : BitVec n :=
  if v.msb then BitVec.neg v else v

lemma smtSDiv_eq_magnitudes (u v : BitVec n) :
    BitVec.smtSDiv u v =
      if u.msb ^^ v.msb then BitVec.neg (BitVec.smtUDiv (magnitude u) (magnitude v))
      else BitVec.smtUDiv (magnitude u) (magnitude v) := by
  unfold BitVec.smtSDiv magnitude
  cases u.msb <;> cases v.msb <;> rfl

lemma srem_eq_magnitudes (u v : BitVec n) :
    BitVec.srem u v =
      if u.msb then BitVec.neg (BitVec.umod (magnitude u) (magnitude v))
      else BitVec.umod (magnitude u) (magnitude v) := by
  unfold BitVec.srem magnitude
  cases u.msb <;> cases v.msb <;> rfl

def negated (l : Lit) (x : Word) : Draw Word := do
  Word.mux l (← Word.neg x) x

lemma negated_yields (shows : Shows assign c l b) (holds : Holds assign c x v) :
    Yields c (negated l x) (fun z d => Holds assign d z (if b then BitVec.neg v else v)) :=
  (neg_yields holds).bind fun _ _ grown negated => Holds.mux (shows.grow grown) negated (holds.grow grown)

lemma sdivrem_eq (x y : Word) :
    Word.sdivrem x y = (do
      let ax ← negated x.sign x
      let ay ← negated y.sign y
      let (q, r) ← Word.udivrem ax ay
      let q ← negated (← xor x.sign y.sign) q
      let r ← negated x.sign r
      pure (q, r)) := by
  simp only [Word.sdivrem, negated, bind_assoc]

lemma sdivrem_yields (left : Holds assign c x u) (right : Holds assign c y v) :
    Yields c (Word.sdivrem x y)
      (fun out d => Holds assign d out.1 (BitVec.smtSDiv u v) ∧ Holds assign d out.2 (BitVec.srem u v)) := by
  refine .of_ordered fun ordered => ?_
  have signX := left.sign ordered
  have signY := right.sign ordered
  rw [sdivrem_eq, smtSDiv_eq_magnitudes, srem_eq_magnitudes]
  refine (negated_yields signX left).bind fun ax c₁ grown₁ holdsX => ?_
  refine (negated_yields (signY.grow grown₁) (right.grow grown₁)).bind fun ay c₂ grown₂ holdsY => ?_
  refine (udivrem_yields (holdsX.grow grown₂) holdsY).bind fun qr c₃ grown₃ divided => ?_
  have grown := (grown₁.trans grown₂).trans grown₃
  refine (xor_yields (signX.grow grown) (signY.grow grown)).bind fun s c₄ grown₄ differ => ?_
  refine (negated_yields differ (divided.1.grow grown₄)).bind fun q c₅ grown₅ quotient => ?_
  refine (negated_yields (((signX.grow grown).grow grown₄).grow grown₅)
    ((divided.2.grow grown₄).grow grown₅)).bind fun r c₆ grown₆ remainder => .pure fun _ => ?_
  exact ⟨quotient.grow grown₆, remainder⟩

end Faultline.Circuit
