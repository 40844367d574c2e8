/-
# Proofs.Circuit.Word — words of literals compute on words of bits

`Spells assign c x vs` says that the literals of the word `x` have the values `vs`,
and `Holds assign c x v` that they spell the bits of `v`. The ripple-carry adder keeps

  sum + 2 ^ length * carry out = x + y + carry in

and addition, subtraction, negation, comparison and multiplication are read off that
equation.
-/
import Faultline.Circuit.Word
import Faultline.Proofs.Circuit.Bits
import Faultline.Proofs.Circuit.Gate

namespace Faultline.Circuit

variable {c d : Circuit} {assign : Nat → Bool} {l : Lit} {b : Bool} {x y z : Word} {us vs : List Bool}
  {n : Nat} {u v : BitVec n}

/-- The literals of a word have these values. -/
def Spells (assign : Nat → Bool) (c : Circuit) (x : Word) (vs : List Bool) : Prop :=
  List.Forall₂ (Shows assign c) x vs

/-- A word of literals stands for a word of bits. -/
def Holds (assign : Nat → Bool) (c : Circuit) (x : Word) (v : BitVec n) : Prop :=
  Spells assign c x (bits v)

namespace Spells

lemma length_eq (spells : Spells assign c x vs) : x.length = vs.length :=
  List.Forall₂.length_eq spells

lemma grow (spells : Spells assign c x vs) (grown : c.Extends d) : Spells assign d x vs :=
  List.Forall₂.imp (fun _ _ shows => Shows.grow shows grown) spells

lemma not (spells : Spells assign c x vs) : Spells assign c (Word.not x) (vs.map (!·)) := by
  unfold Spells Word.not
  rw [List.forall₂_map_left_iff, List.forall₂_map_right_iff]
  exact List.Forall₂.imp (fun _ _ shows => Shows.not shows) spells

lemma append (first : Spells assign c x us) (second : Spells assign c y vs) :
    Spells assign c (x ++ y) (us ++ vs) :=
  List.rel_append first second

lemma replicate (shows : Shows assign c l b) (k : Nat) :
    Spells assign c (List.replicate k l) (List.replicate k b) := by
  induction k with
  | zero => exact .nil
  | succ k ih => exact .cons shows ih

lemma zero (ordered : c.Ordered) (k : Nat) : Spells assign c (Word.zero k) (List.replicate k false) :=
  replicate (shows_no ordered) k

lemma take (spells : Spells assign c x vs) (k : Nat) : Spells assign c (x.take k) (vs.take k) :=
  List.forall₂_take k spells

lemma drop (spells : Spells assign c x vs) (k : Nat) : Spells assign c (x.drop k) (vs.drop k) :=
  List.forall₂_drop k spells

lemma holds (spells : Spells assign c x vs) (length : vs.length = n) (same : number vs = v.toNat) :
    Holds assign c x v := by
  rw [Holds, ← eq_bits length same]
  exact spells

end Spells

lemma Holds.grow (holds : Holds assign c x v) (grown : c.Extends d) : Holds assign d x v :=
  Spells.grow holds grown

lemma Holds.length_eq (holds : Holds assign c x v) : x.length = n := by
  rw [Spells.length_eq holds, length_bits]

/-! ## Place by place -/

lemma zipWithM_yields {op : Lit → Lit → Draw Lit} {f : Bool → Bool → Bool}
    (each : ∀ {d a b u v}, c.Extends d → Shows assign d a u → Shows assign d b v →
      Yields d (op a b) (fun l e => Shows assign e l (f u v)))
    (left : Spells assign c x us) (right : Spells assign c y vs) :
    Yields c (Word.zipWithM op x y) (fun z d => Spells assign d z (List.zipWith f us vs)) := by
  have general : ∀ {d}, c.Extends d → Spells assign d x us → Spells assign d y vs →
      Yields d (Word.zipWithM op x y) (fun z e => Spells assign e z (List.zipWith f us vs)) := by
    clear left right
    induction x generalizing y us vs with
    | nil =>
      intro d _ left _
      cases left
      exact .pure fun _ => .nil
    | cons a x ih =>
      intro d grown left right
      cases left with
      | cons here left =>
        cases right with
        | nil => exact .pure fun _ => .nil
        | cons here' right =>
          refine (each grown here here').bind fun l e more shows => ?_
          refine (ih (grown.trans more) (Spells.grow left more) (Spells.grow right more)).bind
            fun z e' more' spells => ?_
          exact .pure fun _ => .cons (shows.grow more') spells
  exact fun ordered => general (Extends.refl ordered) left right ordered

lemma zipWith_ite (b : Bool) (length : us.length = vs.length) :
    List.zipWith (fun u v => if b then u else v) us vs = if b then us else vs := by
  induction us generalizing vs with
  | nil =>
    obtain rfl := List.length_eq_zero_iff.1 length.symm
    cases b <;> rfl
  | cons u us ih =>
    cases vs with
    | nil => cases length
    | cons v vs =>
      rw [List.zipWith_cons_cons, ih (Nat.succ.inj length)]
      cases b <;> rfl

lemma mux_yields (cond : Shows assign c l b) (onTrue : Spells assign c x us) (onFalse : Spells assign c y vs)
    (length : us.length = vs.length) :
    Yields c (Word.mux l x y) (fun z d => Spells assign d z (if b then us else vs)) := by
  rw [← zipWith_ite b length]
  exact zipWithM_yields (fun grown here here' => choice_yields (cond.grow grown) here here') onTrue onFalse

lemma Holds.mux (cond : Shows assign c l b) (onTrue : Holds assign c x u) (onFalse : Holds assign c y v) :
    Yields c (Word.mux l x y) (fun z d => Holds assign d z (if b then u else v)) := by
  refine (mux_yields cond onTrue onFalse (by simp)).mono fun z d _ spells => ?_
  rw [Holds, apply_ite bits]
  exact spells

lemma mapM_yields {op : Lit → Draw Lit} {f : Bool → Bool}
    (each : ∀ {d a u}, c.Extends d → Shows assign d a u → Yields d (op a) (fun l e => Shows assign e l (f u)))
    (spells : Spells assign c x us) :
    Yields c (x.mapM op) (fun z d => Spells assign d z (us.map f)) := by
  have general : ∀ {d}, c.Extends d → Spells assign d x us →
      Yields d (x.mapM op) (fun z e => Spells assign e z (us.map f)) := by
    clear spells
    induction x generalizing us with
    | nil =>
      intro d _ spells
      cases spells
      exact .pure fun _ => .nil
    | cons a x ih =>
      intro d grown spells
      cases spells with
      | cons here spells =>
        rw [List.mapM_cons]
        refine (each grown here).bind fun l e more shows => ?_
        refine (ih (grown.trans more) (Spells.grow spells more)).bind fun z e' more' spells => ?_
        exact .pure fun _ => .cons (shows.grow more') spells
  exact fun ordered => general (Extends.refl ordered) spells ordered

/-! ## Addition -/

/-- The equation of the ripple-carry adder. -/
lemma addCarry_yields (left : Spells assign c x us) (right : Spells assign c y vs)
    (length : us.length = vs.length) (carry : Shows assign c l b) :
    Yields c (Word.addCarry x y l) (fun r d => ∃ ss out,
      Spells assign d r.1 ss ∧ ss.length = us.length ∧ Shows assign d r.2 out ∧
      number ss + 2 ^ us.length * out.toNat = number us + number vs + b.toNat) := by
  induction x generalizing c y us vs l b with
  | nil =>
    cases left
    obtain rfl := List.length_eq_zero_iff.1 length.symm
    cases right
    exact .pure fun _ => ⟨[], b, .nil, rfl, carry, by simp [number]⟩
  | cons a x ih =>
    cases left with
    | @cons _ p _ us hereP left =>
    cases right with
    | nil => cases length
    | @cons _ q _ vs hereQ right =>
      refine (xor_yields hereP hereQ).bind fun t c₁ grown₁ half => ?_
      refine (xor_yields half (carry.grow grown₁)).bind fun s c₂ grown₂ sum => ?_
      refine (and_yields ((hereP.grow grown₁).grow grown₂) ((hereQ.grow grown₁).grow grown₂)).bind
        fun g c₃ grown₃ both => ?_
      refine (and_yields (((carry.grow grown₁).grow grown₂).grow grown₃)
        ((half.grow grown₂).grow grown₃)).bind fun h c₄ grown₄ passed => ?_
      refine (or_yields (both.grow grown₄) passed).bind fun o c₅ grown₅ out => ?_
      have grown := (((grown₁.trans grown₂).trans grown₃).trans grown₄).trans grown₅
      refine (ih (Spells.grow left grown) (Spells.grow right grown) (Nat.succ.inj length) out).bind
        fun r d more spells => ?_
      obtain ⟨ss, last, spells, size, shows, equation⟩ := spells
      refine .pure fun _ => ⟨((p ^^ q) ^^ b) :: ss, last, .cons (sum.grow (((grown₃.trans grown₄).trans
        grown₅).trans more)) spells, by simp [size], shows, ?_⟩
      -- One full adder.
      have place : ((p ^^ q) ^^ b).toNat + 2 * ((p && q) || (b && (p ^^ q))).toNat =
          p.toNat + q.toNat + b.toNat := by cases p <;> cases q <;> cases b <;> rfl
      simp only [number, List.length_cons, Nat.pow_succ]
      linarith

lemma addCarry_fst_yields (left : Spells assign c x us) (right : Spells assign c y vs)
    (length : us.length = vs.length) (carry : Shows assign c l b) :
    Yields c (Prod.fst <$> Word.addCarry x y l) (fun z d => ∃ ss, Spells assign d z ss ∧
      ss.length = us.length ∧ number ss = (number us + number vs + b.toNat) % 2 ^ us.length) := by
  refine (addCarry_yields left right length carry).map fun r d _ sum => ?_
  obtain ⟨ss, out, spells, size, -, equation⟩ := sum
  refine ⟨ss, spells, size, ?_⟩
  rw [← equation, Nat.add_mul_mod_self_left, Nat.mod_eq_of_lt (size ▸ number_lt ss)]

lemma add_yields (left : Holds assign c x u) (right : Holds assign c y v) :
    Yields c (Word.add x y) (fun z d => Holds assign d z (BitVec.add u v)) := by
  refine .of_ordered fun ordered => ?_
  unfold Word.add
  refine (addCarry_fst_yields left right (by simp) (shows_no ordered)).mono fun z d _ sum => ?_
  obtain ⟨ss, spells, size, same⟩ := sum
  refine spells.holds (by simpa using size) (same.trans ?_)
  rw [length_bits, number_bits, number_bits]
  exact (BitVec.toNat_add u v).symm

/-- The complement of a word, and one more: the word is taken away. -/
lemma number_bits_not (v : BitVec n) : number ((bits v).map (!·)) + 1 = 2 ^ n - v.toNat := by
  have complement := number_map_not (bits v)
  rw [length_bits, number_bits] at complement
  omega

lemma sub_yields (left : Holds assign c x u) (right : Holds assign c y v) :
    Yields c (Word.sub x y) (fun z d => Holds assign d z (BitVec.sub u v)) := by
  refine .of_ordered fun ordered => ?_
  unfold Word.sub
  refine (addCarry_fst_yields left (Spells.not right) (by simp) (shows_yes ordered)).mono
    fun z d _ sum => ?_
  obtain ⟨ss, spells, size, same⟩ := sum
  refine spells.holds (by simpa using size) (same.trans ?_)
  rw [Bool.toNat_true, Nat.add_assoc, number_bits_not, length_bits, number_bits, Nat.add_comm]
  exact (BitVec.toNat_sub u v).symm

lemma neg_yields (holds : Holds assign c x v) :
    Yields c (Word.neg x) (fun z d => Holds assign d z (BitVec.neg v)) := by
  refine .of_ordered fun ordered => ?_
  unfold Word.neg
  have length : x.length = n := holds.length_eq
  refine (addCarry_fst_yields (Spells.not holds) (Spells.zero ordered x.length) (by simp [length])
    (shows_yes ordered)).mono fun z d _ sum => ?_
  obtain ⟨ss, spells, size, same⟩ := sum
  refine spells.holds (by simpa using size) (same.trans ?_)
  rw [number_replicate_false, Nat.add_zero, Bool.toNat_true, number_bits_not, List.length_map,
    length_bits]
  exact (BitVec.toNat_neg v).symm

/-! ## Comparison -/

lemma ult_yields_number (left : Spells assign c x us) (right : Spells assign c y vs)
    (length : us.length = vs.length) :
    Yields c (Word.ult x y) (fun l d => Shows assign d l (decide (number us < number vs))) := by
  refine .of_ordered fun ordered => ?_
  unfold Word.ult
  refine (addCarry_yields left (Spells.not right) (by simpa using length) (shows_yes ordered)).bind
    fun r d _ sum => ?_
  obtain ⟨ss, out, spells, size, shows, equation⟩ := sum
  have complement := number_map_not vs
  have low := number_lt us
  have bound := size ▸ number_lt ss
  rw [← length] at complement
  have borrow : decide (number us < number vs) = !out := by
    cases out
    · simp only [Bool.toNat_false, Bool.toNat_true] at equation
      simp only [Bool.not_false, decide_eq_true_eq]
      omega
    · simp only [Bool.toNat_true] at equation
      simp only [Bool.not_true, decide_eq_false_iff_not]
      omega
  rw [borrow]
  exact .pure fun _ => shows.not

lemma ult_yields (left : Holds assign c x u) (right : Holds assign c y v) :
    Yields c (Word.ult x y) (fun l d => Shows assign d l (BitVec.ult u v)) := by
  have less := ult_yields_number left right (by simp)
  rwa [number_bits, number_bits] at less

lemma eqFrom_yields (left : Spells assign c x us) (right : Spells assign c y vs)
    (length : us.length = vs.length) (shows : Shows assign c l b) :
    Yields c (Word.eqFrom x y l) (fun l d => Shows assign d l (b && decide (us = vs))) := by
  induction x generalizing c y us vs l b with
  | nil =>
    cases left
    obtain rfl := List.length_eq_zero_iff.1 length.symm
    cases right
    exact .pure fun _ => by simpa using shows
  | cons a x ih =>
    cases left with
    | @cons _ p _ us hereP left =>
    cases right with
    | nil => cases length
    | @cons _ q _ vs hereQ right =>
      refine (xor_yields hereP hereQ).bind fun t c₁ grown₁ differ => ?_
      refine (and_yields (shows.grow grown₁) differ.not).bind fun m c₂ grown₂ same => ?_
      have grown := grown₁.trans grown₂
      refine (ih (Spells.grow left grown) (Spells.grow right grown) (Nat.succ.inj length) same).mono
        fun r d _ all => ?_
      have both : (b && decide (p :: us = q :: vs)) = ((b && !(p ^^ q)) && decide (us = vs)) := by
        rw [Bool.and_assoc]
        cases p <;> cases q <;> simp
      rwa [both]

lemma eq_yields (left : Holds assign c x u) (right : Holds assign c y v) :
    Yields c (Word.eq x y) (fun l d => Shows assign d l (decide (u = v))) := by
  refine .of_ordered fun ordered => ?_
  unfold Word.eq
  refine (eqFrom_yields left right (by simp) (shows_yes ordered)).mono fun l d _ same => ?_
  have iff : bits u = bits v ↔ u = v := by
    refine ⟨fun same => BitVec.eq_of_toNat_eq ?_, congrArg bits⟩
    rw [← number_bits u, ← number_bits v, same]
  rwa [Bool.true_and, decide_eq_decide.2 iff] at same

lemma bits_eq_concat (v : BitVec (n + 1)) : bits v = (bits v).take n ++ [v.msb] := by
  have last : (bits v).drop n = [v.msb] := by
    rw [List.drop_eq_getElem_cons (by simp), List.drop_eq_nil_of_le (by simp), getElem_bits,
      BitVec.msb_eq_getLsbD_last, Nat.add_sub_cancel]
  rw [← last, List.take_append_drop]

lemma spells_concat (spells : Spells assign c x (us ++ [b])) :
    ∃ y a, x = y ++ [a] ∧ Spells assign c y us ∧ Shows assign c a b := by
  rcases List.eq_nil_or_concat x with rfl | ⟨y, a, rfl⟩
  · have length := spells.length_eq
    simp at length
  · rw [List.concat_eq_append] at spells ⊢
    have backward := List.forall₂_reverse_iff.2 spells
    rw [List.reverse_append, List.reverse_append] at backward
    cases backward with
    | cons last rest => exact ⟨y, a, rfl, List.forall₂_reverse_iff.1 rest, last⟩

lemma Holds.sign (ordered : c.Ordered) (holds : Holds assign c x v) : Shows assign c x.sign v.msb := by
  cases n with
  | zero =>
    have empty := List.length_eq_zero_iff.1 holds.length_eq
    rw [empty, show v.msb = false by simp [BitVec.of_length_zero]]
    exact shows_no ordered
  | succ n =>
    rw [Holds, bits_eq_concat] at holds
    obtain ⟨y, a, rfl, -, last⟩ := spells_concat holds
    simpa [Word.sign] using last

/-- The number of a word with its sign bit flipped is its integer, moved up by half the range. -/
lemma flipSign_spells {v : BitVec (n + 1)} (holds : Holds assign c x v) :
    ∃ vs, Spells assign c (Word.flipSign x) vs ∧ vs.length = n + 1 ∧ (number vs : Int) = v.toInt + 2 ^ n := by
  have whole := number_bits v
  have low : ((bits v).take n).length = n := by simp
  rw [Holds, bits_eq_concat] at holds
  rw [bits_eq_concat, number_append, low] at whole
  obtain ⟨y, a, rfl, spells, last⟩ := spells_concat holds
  refine ⟨(bits v).take n ++ [!v.msb], ?_, by simp, ?_⟩
  · have flipped : Word.flipSign (y ++ [a]) = y ++ [a.not] := by simp [Word.flipSign]
    rw [flipped]
    exact spells.append (.cons last.not .nil)
  · rw [BitVec.toInt_eq_msb_cond, ← whole, number_append, low]
    cases v.msb
    · simp [number]
    · simp [number, pow_succ]
      ring

lemma slt_yields (left : Holds assign c x u) (right : Holds assign c y v) :
    Yields c (Word.slt x y) (fun l d => Shows assign d l (BitVec.slt u v)) := by
  cases n with
  | zero =>
    refine .of_ordered fun ordered => ?_
    have emptyX := List.length_eq_zero_iff.1 left.length_eq
    have emptyY := List.length_eq_zero_iff.1 right.length_eq
    subst emptyX emptyY
    have less : Yields c (Word.slt [] []) (fun l d => Shows assign d l (decide (number [] < number []))) :=
      ult_yields_number .nil .nil rfl
    rwa [show BitVec.slt u v = decide (number [] < number []) by simp [BitVec.of_length_zero]]
  | succ n =>
    obtain ⟨us, spellsU, lengthU, numberU⟩ := flipSign_spells left
    obtain ⟨vs, spellsV, lengthV, numberV⟩ := flipSign_spells right
    have less : BitVec.slt u v = decide (number us < number vs) := by
      rw [BitVec.slt]
      exact decide_eq_decide.2 (by omega)
    rw [less]
    exact ult_yields_number spellsU spellsV (lengthU.trans lengthV.symm)

/-! ## Multiplication -/

lemma partialProduct_yields (spells : Spells assign c x us) (shows : Shows assign c l b) (i : Nat) :
    Yields c (Word.partialProduct x i l) (fun z d => ∃ vs, Spells assign d z vs ∧ vs.length = us.length ∧
      number vs = (2 ^ i * (number us * b.toNat)) % 2 ^ us.length) := by
  refine .of_ordered fun ordered => ?_
  have length := spells.length_eq
  refine (mapM_yields (fun grown here => and_yields here (shows.grow grown))
    (spells.take (x.length - i))).bind fun z d grown kept => .pure fun ordered => ?_
  refine ⟨List.replicate (min i x.length) false ++ ((us.take (x.length - i)).map (· && b)),
    (Spells.zero ordered _).append kept, by simp; omega, ?_⟩
  have masked : ∀ vs : List Bool, number (vs.map (· && b)) = number vs * b.toNat := by
    intro vs
    induction vs with
    | nil => simp [number]
    | cons v vs ih =>
      simp only [List.map_cons, number, ih]
      cases v <;> cases b <;> simp
  rw [number_append, number_replicate_false, masked, number_take, Nat.zero_add, List.length_replicate, length]
  rcases Nat.le_total i us.length with inside | outside
  · rw [Nat.min_eq_left inside]
    have split : 2 ^ us.length = 2 ^ i * 2 ^ (us.length - i) := by
      rw [← Nat.pow_add, Nat.add_sub_cancel' inside]
    rw [split, Nat.mul_mod_mul_left]
    cases b <;> simp
  · rw [Nat.min_eq_right outside, Nat.sub_eq_zero_of_le outside, Nat.pow_zero, Nat.mod_one, Nat.zero_mul,
      Nat.mul_zero]
    obtain ⟨k, rfl⟩ := Nat.exists_eq_add_of_le outside
    rw [Nat.pow_add, Nat.mul_assoc, Nat.mul_mod_right]

/-- Shift and add, from place `i` of the multiplier on. -/
lemma mulFrom_yields {as : List Bool} (multiplicand : Spells assign c x us)
    (multiplier : Spells assign c y vs) (acc : Spells assign c z as) (length : as.length = us.length) (i : Nat) :
    Yields c (Word.mulFrom x y i z) (fun r d => ∃ ps, Spells assign d r ps ∧ ps.length = us.length ∧
      number ps = (number as + 2 ^ i * (number us * number vs)) % 2 ^ us.length) := by
  induction y generalizing c vs as z i with
  | nil =>
    cases multiplier
    refine .pure fun _ => ⟨as, acc, length, ?_⟩
    simp [number, Nat.mod_eq_of_lt (length ▸ number_lt as)]
  | cons l y ih =>
    cases multiplier with
    | @cons _ b _ vs here multiplier =>
      have grows : 2 ^ (i + 1) = 2 ^ i * 2 := Nat.pow_succ _ _
      unfold Word.mulFrom
      split
      -- a multiplier bit that is constantly zero draws no row and adds none
      · rename_i zero
        refine .of_ordered fun ordered => ?_
        subst zero
        rw [here.unique (shows_no ordered)]
        refine (ih multiplicand multiplier acc length (i + 1)).mono fun r d _ product => ?_
        obtain ⟨ps, spells, size, same⟩ := product
        refine ⟨ps, spells, size, same.trans ?_⟩
        rw [grows]
        simp only [number, Bool.toNat_false]
        ring_nf
      · refine (partialProduct_yields multiplicand here i).bind fun t c₁ grown₁ part => ?_
        obtain ⟨ts, spellsT, lengthT, numberT⟩ := part
        refine .of_ordered fun ordered => ?_
        refine (addCarry_fst_yields (acc.grow grown₁) spellsT (length.trans lengthT.symm)
          (shows_no ordered)).bind fun s c₂ grown₂ sum => ?_
        obtain ⟨ss, spellsS, lengthS, numberS⟩ := sum
        have grown := grown₁.trans grown₂
        refine (ih (multiplicand.grow grown) (Spells.grow multiplier grown) spellsS
          (lengthS.trans length) (i + 1)).mono fun r d _ product => ?_
        obtain ⟨ps, spells, size, same⟩ := product
        refine ⟨ps, spells, size, same.trans ?_⟩
        -- the sum lost its carry, but everything counts only up to the length
        have cut : number ss ≡ number as + 2 ^ i * (number us * b.toNat) [MOD 2 ^ us.length] := by
          rw [numberS, numberT, length, Bool.toNat_false, Nat.add_zero]
          exact (Nat.mod_modEq _ _).trans ((Nat.mod_modEq _ _).add_left _)
        refine (cut.add_right _).trans (congrArg (· % 2 ^ us.length) ?_)
        rw [grows]
        simp only [number]
        ring

lemma mul_yields (left : Holds assign c x u) (right : Holds assign c y v) :
    Yields c (Word.mul x y) (fun z d => Holds assign d z (BitVec.mul u v)) := by
  refine .of_ordered fun ordered => ?_
  unfold Word.mul
  have length : x.length = n := left.length_eq
  refine (mulFrom_yields left right (Spells.zero ordered x.length) (by simp [length]) 0).mono
    fun z d _ product => ?_
  obtain ⟨ps, spells, size, same⟩ := product
  refine spells.holds (by simpa using size) (same.trans ?_)
  rw [number_replicate_false, Nat.zero_add, Nat.pow_zero, Nat.one_mul, number_bits, number_bits, length_bits]
  exact (BitVec.toNat_mul u v).symm

end Faultline.Circuit
