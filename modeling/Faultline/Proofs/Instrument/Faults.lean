/-
# Proofs.Instrument.Faults — a sentinel call tells when its instruction goes wrong

`Faults op withSign x y` says that an operation goes wrong on two words: a sum,
difference or product leaves its range, a shift goes as far as there are bits, a
divisor is zero, or the least number is divided by minus one.

Where definitions are obeyed, each value of a group of guards is a certain word
(`Worth`), and the last one tells what the hazard is about (`Guards.tells`). So the
condition of the call before an instruction tells whether that instruction goes
wrong (`condition_exact`), as long as the double of its bits can be stored.
-/
import Faultline.Proofs.Analysis.Alarm
import Faultline.Proofs.Analysis.Mirror
import Faultline.Proofs.Instrument.Printing

namespace Faultline.Analysis

open IR (ValueId Ty Inst)
open Formula (Handle widthLimit)
open Instrument (IsInt IsInst)

variable {s : Setting} {b : Bench} {v x y : ValueId} {f h : Handle} {extra : Multiset Handle} {val : ValueId → Nat} {w : Nat}
  {i : Inst ValueId} {n : Int} {t : Ty}

/-! ## Definitions that are obeyed -/

/-- The value and all it needs are what their definitions say. -/
def Obeys (s : Setting) (val : ValueId → Nat) (v : ValueId) : Prop :=
  ∀ x, Needs s v x → ∀ k, meaning? s val x = some k → val x = k

lemma Obeys.of_demanded (obeys : Obeys s val v) (demanded : x ∈ demands s v) : Obeys s val x :=
  fun y needs => obeys y (.head demanded needs)

lemma Fine.obeys {assign : Handle → Nat} (fine : Fine s b extra) (known : b.formula? v = some h)
    (agrees : b.Agrees assign val) : Obeys s val v := by
  intro x needs k means
  obtain ⟨g, there⟩ : ∃ g, b.formula? x = some g := by
    clear means
    induction needs with
    | refl => exact ⟨h, known⟩
    | tail _ demanded ih =>
      obtain ⟨g, there⟩ := ih
      exact fine.operands there _ demanded
  have same : meaning? s (b.reading assign) x = meaning? s val x := by
    refine meaning?_congr fun y demanded => ?_
    obtain ⟨f, here⟩ := fine.operands there y demanded
    rw [Bench.reading_of_known here, agrees y f here]
  rw [agrees x g there, fine.value there assign k (same.trans means)]

/-- What tells of a single value knows its formula: any other value could be changed. -/
lemma Bench.Tells.known (tells : b.Tells f fun val => val v = 1) : ∃ h, b.formula? v = some h := by
  by_contra unknown
  have agrees (n : Nat) : b.Agrees (fun _ => 0) (Function.update (b.reading fun _ => 0) v n) := by
    intro x h known
    have other : x ≠ v := by
      rintro rfl
      exact unknown ⟨h, known⟩
    rw [Function.update_of_ne other]
    exact b.agrees_reading _ x h known
  have one := (tells.value _ _ (agrees 1)).2 (Function.update_self v 1 _)
  have zero := (tells.value _ _ (agrees 0)).1 one
  rw [Function.update_self] at zero
  cases zero

/-! ## Values that are added -/

/-- The value is well typed, and this word where definitions are obeyed. -/
structure Worth (s : Setting) (v : ValueId) (w : Nat) (word : (ValueId → Nat) → BitVec w) : Prop where
  proper : Proper s v
  bits : HasBits s v w
  value : ∀ val, Obeys s val v → BitVec.ofNat w (val v) = word val

variable {left right : (ValueId → Nat) → BitVec w}

lemma Proper.worth (proper : Proper s v) (bits : HasBits s v w) : Worth s v w fun val => BitVec.ofNat w (val v) :=
  ⟨proper, bits, fun _ _ => rfl⟩

lemma Worth.of_meaning {word : (ValueId → Nat) → BitVec w} (proper : Proper s v) (bits : HasBits s v w)
    (means : ∀ val, Obeys s val v → meaning? s val v = some (word val).toNat) : Worth s v w word := by
  refine ⟨proper, bits, fun val obeys => ?_⟩
  rw [obeys v .refl _ (means val obeys), BitVec.ofNat_toNat, BitVec.setWidth_eq]

lemma hasBits_of_resolve (int : s.module.resolve (s.module.typeOf v) = .int w) : HasBits s v w := by
  unfold HasBits Setting.width?
  rw [int]

lemma hasBits_of_int (isInt : IsInt s.module v t n) (type : s.module.resolve t = .int w) : HasBits s v w := by
  have same : s.module.typeOf v = t := by
    unfold IR.Module.typeOf
    rw [show s.module.get? v = _ from isInt]
    rfl
  exact hasBits_of_resolve (same ▸ type)

lemma Worth.int (isInt : IsInt s.module v t n) (type : s.module.resolve t = .int w)
    (positive : 0 < w) (narrow : w + w < widthLimit) : Worth s v w fun _ => BitVec.ofInt w n := by
  have found : s.module.get? v = some (.const t (.int n)) := isInt
  have bits := hasBits_of_int isInt type
  have nothing : demands s v = [] := by
    unfold demands
    rw [found]
    split <;> rfl
  refine .of_meaning (.intro ⟨found, bits, positive, narrow, type, nofun, nofun⟩ (by simp [nothing])) bits fun val _ => ?_
  unfold meaning?
  rw [show s.width? (s.module.typeOf v) = some w from bits, found]
  dsimp only
  rw [type]

lemma hasBits_of_inst (isInst : IsInst s.module v .bool i) : HasBits s v 1 := by
  obtain ⟨name, found⟩ := isInst
  unfold HasBits IR.Module.typeOf
  rw [found]
  rfl

lemma Worth.inst {word : (ValueId → Nat) → BitVec 1} (isInst : IsInst s.module v .bool i)
    (typed : InstTyped s 1 i) (whole : ∀ x path, i ≠ .extractValue x path) (operands : ∀ x ∈ instDemands s i, Proper s x)
    (means : ∀ val, (∀ x ∈ instDemands s i, Obeys s val x) → instMeaning? s val 1 i = some (word val).toNat) :
    Worth s v 1 word := by
  have bits := hasBits_of_inst isInst
  have writes := isInst.ident_writes
  obtain ⟨name, found⟩ := isInst
  have demanded : demands s v = instDemands s i := by
    unfold demands
    rw [show s.width? (s.module.typeOf v) = some 1 from bits, found]
    rfl
  have line : isExtraction (.inst name .bool i []) = false := by
    cases i with
    | extractValue x path => exact absurd rfl (whole x path)
    | _ => rfl
  have sane : Sane s v 1 (.inst name .bool i []) := by
    refine ⟨found, bits, Nat.one_pos, by decide, typed, fun _ => ?_, by simp [line]⟩
    obtain ⟨text, written⟩ := writes
    unfold IR.Module.identText
    rw [written]
    rfl
  refine .of_meaning (.intro sane (demanded ▸ operands)) bits fun val obeys => ?_
  unfold meaning?
  rw [show s.width? (s.module.typeOf v) = some 1 from bits, found]
  exact means val fun x mem => obeys.of_demanded (demanded ▸ mem)

lemma Worth.compare {op : Formula.Compare} (isInst : IsInst s.module v .bool (.icmp (.known op) x y))
    (first : Worth s x w left) (second : Worth s y w right) :
    Worth s v 1 fun val => BitVec.ofBool (op.smt (left val) (right val)) := by
  refine .inst isInst ⟨⟨op, rfl⟩, rfl, w, first.bits, second.bits⟩ (by simp) ?_ fun val obeys => ?_
  · simpa [instDemands] using ⟨first.proper, second.proper⟩
  · simp only [instDemands, List.mem_cons, List.not_mem_nil, or_false, forall_eq_or_imp, forall_eq] at obeys
    rw [← first.value val obeys.1, ← second.value val obeys.2, BitVec.toNat_ofBool]
    unfold instMeaning? wordOf
    dsimp only
    rw [first.bits.bits_eq]

lemma Worth.arith {op : Formula.Arith} {left right : (ValueId → Nat) → BitVec 1}
    (isInst : IsInst s.module v .bool (.arith op [] x y)) (first : Worth s x 1 left) (second : Worth s y 1 right) :
    Worth s v 1 fun val => op.smt (left val) (right val) := by
  refine .inst isInst ⟨first.bits, second.bits⟩ (by simp) ?_ fun val obeys => ?_
  · simpa [instDemands] using ⟨first.proper, second.proper⟩
  · simp only [instDemands, List.mem_cons, List.not_mem_nil, or_false, forall_eq_or_imp, forall_eq] at obeys
    rw [← first.value val obeys.1, ← second.value val obeys.2]
    rfl

/-! ## Calls -/

lemma conditionOf_worth {call cond : ValueId} {p : (ValueId → Nat) → Bool} (calls : CallsWith s call .fault [cond])
    (worth : Worth s cond 1 fun val => BitVec.ofBool (p val)) (fine : Fine s b extra) :
    Ends b (conditionOf s call) (fun r c => Bit s b extra r c ∧ c.Tells r fun val => p val = true) (fun _ _ => False) := by
  refine (conditionOf_fine (.fault calls worth.proper worth.bits) fine).imp fun r c h => ⟨h.1, ?_⟩
  obtain ⟨bit, tells⟩ := h
  obtain ⟨h, known⟩ := Bench.Tells.known tells
  refine ⟨tells.node, tells.width, fun assign val agrees => (tells.value assign val agrees).trans ?_⟩
  have small : val cond < 2 ^ 1 := by
    have width : c.arena.widthOf h = 1 := (bit.fine.width known).trans worth.bits.bits_eq
    rw [agrees cond h known, ← width]
    exact c.arena.eval_lt assign h
  have same := congrArg BitVec.toNat (worth.value val (bit.fine.obeys known agrees))
  rw [BitVec.toNat_ofNat, Nat.mod_eq_of_lt small, BitVec.toNat_ofBool] at same
  rw [same]
  simp

end Faultline.Analysis

namespace Faultline.Instrument

open IR (Module ValueId Func Block Def Inst Ty Name trueId falseId)
open Faultline.Flow (Graph)
open Formula (Arena Handle Arith widthLimit)
open Analysis (HasBits Proper Fine Bit Worth Leaves CallsWith Mirrors bits conditionOf)
open Formula Analysis

variable {m c : Module} {g : Graph} {s : Setting} {b : Bench} {v x y callee call : ValueId} {extra : Multiset Handle} {w : Nat}
  {h : Hazard} {group : List ValueId} {op : Arith} {withSign : Bool} {t : Ty} {n : Int}

/-! ## What goes wrong -/

/-- The operation goes wrong on these words. With the sign a result has to stay in the signed range. -/
def Faults (op : Arith) (withSign : Bool) {w : Nat} (x y : BitVec w) : Prop :=
  match op with
  | .add => Leaves .add withSign x y
  | .sub => Leaves .sub withSign x y
  | .mul => Leaves .mul withSign x y
  | .shl | .lshr | .ashr => w ≤ y.toNat
  | .udiv => y = 0
  | .sdiv => y = 0 ∨ y.toInt = -1 ∧ x.toInt = -2 ^ (w - 1)
  | .urem | .srem | .and | .or | .xor => False

/-- What a hazard on words of `w` bits is about happens. -/
def Hazard.Strikes (w : Nat) (val : ValueId → Nat) : Hazard → Prop
  | .overflow op withSign _ x y => Leaves op withSign (BitVec.ofNat w (val x)) (BitVec.ofNat w (val y))
  | .shift _ _ y => w ≤ (BitVec.ofNat w (val y)).toNat
  | .zeroDivisor _ y => BitVec.ofNat w (val y) = 0
  | .signedDivision _ _ x y => BitVec.ofNat w (val y) = 0 ∨
      (BitVec.ofNat w (val y)).toInt = -1 ∧ (BitVec.ofNat w (val x)).toInt = -2 ^ (w - 1)

/-- The hazard is one of words of `w` bits. -/
def Hazard.Fits (m : Module) (w : Nat) : Hazard → Prop
  | .overflow _ _ t _ _ | .zeroDivisor t _ => m.resolve t = .int w
  | .shift t n _ | .signedDivision t n _ _ => m.resolve t = .int w ∧ n = w

lemma hazardOf_arith {name : Name} {type : Ty} {flags : List String} {trail : List (IR.Piece ValueId)}
    (found : m.get? v = some (.inst name type (.arith op flags x y) trail)) (int : m.resolve (m.typeOf x) = .int w)
    (hazard : hazardOf m v = some h) : h.Fits m w ∧ (∀ z ∈ h.operands, z = x ∨ z = y) ∧
      ∀ val, h.Strikes w val ↔ Faults op (flags.contains "nsw") (BitVec.ofNat w (val x)) (BitVec.ofNat w (val y)) := by
  unfold hazardOf hazard? at hazard
  rw [found] at hazard
  dsimp only at hazard
  rw [int] at hazard
  cases op <;> cases hazard <;>
    exact ⟨by simp [Hazard.Fits, int], by simp [Hazard.operands], fun val => Iff.rfl⟩

/-! ## Words -/

lemma ofInt_width (w : Nat) : (BitVec.ofInt w w).toNat = w := by
  rw [BitVec.ofInt_natCast, BitVec.toNat_ofNat, Nat.mod_eq_of_lt Nat.lt_two_pow_self]

lemma ofInt_zero (w : Nat) : BitVec.ofInt w 0 = 0 :=
  BitVec.ofInt_natCast w 0

lemma toInt_ofInt_of_range (positive : 0 < w) (low : -2 ^ (w - 1) ≤ n) (high : n < 2 ^ (w - 1)) :
    (BitVec.ofInt w n).toInt = n := by
  obtain ⟨k, rfl⟩ : ∃ k, w = k + 1 := ⟨w - 1, by omega⟩
  rw [BitVec.toInt_ofInt]
  have cast : ((2 ^ k : Nat) : Int) = 2 ^ k := by norm_cast
  have double : 2 ^ (k + 1) = 2 * 2 ^ k := Nat.pow_succ'
  rw [Nat.add_sub_cancel, ← cast] at low high
  exact Int.bmod_eq_of_le (by omega) (by omega)

lemma eq_ofInt_iff (positive : 0 < w) (low : -2 ^ (w - 1) ≤ n) (high : n < 2 ^ (w - 1)) (x : BitVec w) :
    x = BitVec.ofInt w n ↔ x.toInt = n := by
  rw [← BitVec.toInt_inj, toInt_ofInt_of_range positive low high]

/-! ## Calls of sentinels -/

lemma kind_of_overflow (sentinel : IsSentinel c Sentinel.overflowStem v) :
    Sentinel.kindOf? (Sentinel.calleeName c v) = some .overflow := by
  unfold Sentinel.kindOf?
  rw [if_pos ( List.isPrefixOf_iff_prefix.2 (sentinel.calleeName (by simp)))]

lemma kind_of_fault (sentinel : IsSentinel c Sentinel.faultStem v) :
    Sentinel.kindOf? (Sentinel.calleeName c v) = some .fault := by
  have begins := sentinel.calleeName (by simp)
  have other : ¬ (Text.utf8 Sentinel.overflowStem).isPrefixOf (Sentinel.calleeName c v) = true := by
    rw [ List.isPrefixOf_iff_prefix]
    intro both
    exact absurd (List.prefix_of_prefix_length_le both begins (by decide +kernel)) (by decide +kernel)
  unfold Sentinel.kindOf?
  rw [if_neg other, if_pos ( List.isPrefixOf_iff_prefix.2 begins)]

lemma callsWith {kind : Sentinel.Kind} {args : List ValueId}
    (known : Sentinel.kindOf? (Sentinel.calleeName s.module callee) = some kind)
    (last : IsInst s.module call .void (.call ⟨"call", .void, callee, args, []⟩)) : CallsWith s call kind args := by
  obtain ⟨name, found⟩ := last
  exact ⟨name, .void, _, [], found, known, rfl⟩

lemma constIndex_code {op : Sentinel.Guarded} (number : IsInt c v (.int 8) op.code) :
    constIndex c v = .ok (some op.code) := by
  rw [constIndex_of_int number rfl (by decide)]
  cases op <;> rfl

lemma ofCode?_word (op : Sentinel.Guarded) : Sentinel.Guarded.ofCode? (word op.code) = some op := by
  cases op <;> rfl

/-- The truth values have their places. -/
def HasTruths (c : Module) : Prop :=
  IsInt c trueId .bool 1 ∧ IsInt c falseId .bool 0

lemma HasTruths.constIndex (truths : HasTruths c) (withSign : Bool) :
    ∃ sign, constIndex c (if withSign then trueId else falseId) = .ok (some sign) ∧ (sign != 0) = withSign := by
  cases withSign with
  | true => exact ⟨_, constIndex_of_int truths.1 rfl Nat.one_pos, by decide⟩
  | false => exact ⟨_, constIndex_of_int truths.2 rfl Nat.one_pos, by decide⟩

/-! ## Guards -/

lemma bit_or_and (p q r : Bool) : Arith.smt .or (BitVec.ofBool p) (Arith.smt .and (BitVec.ofBool q) (BitVec.ofBool r)) =
    BitVec.ofBool (p || q && r) := by
  cases p <;> cases q <;> cases r <;> rfl

/-- The condition of the call that ends a group of guards tells whether the hazard strikes. -/
lemma Guards.tells (truths : HasTruths s.module) (guards : Guards s.module h group) (last : group.getLast? = some call)
    (fits : h.Fits s.module w) (operands : ∀ z ∈ h.operands, Proper s z ∧ HasBits s z w) (fine : Fine s b extra) :
    Ends b (conditionOf s call) (fun r c => Bit s b extra r c ∧ c.Tells r (h.Strikes w)) (fun _ _ => False) := by
  have sized {z : ValueId} (mem : z ∈ h.operands) : 0 < w ∧ w + w < widthLimit := by
    obtain ⟨proper, has⟩ := operands z mem
    obtain ⟨n, d, sane, -⟩ := proper.sane
    obtain rfl := has.unique sane.bits
    exact ⟨sane.positive, sane.narrow⟩
  have worth {z : ValueId} (mem : z ∈ h.operands) : Worth s z w fun val => BitVec.ofNat w (val z) :=
    (operands z mem).1.worth (operands z mem).2
  have tells {p : (ValueId → Nat) → Bool} {cond : ValueId} (calls : CallsWith s call .fault [cond])
      (worth : Worth s cond 1 fun val => BitVec.ofBool (p val)) (same : ∀ val, p val = true ↔ h.Strikes w val) :
      Ends b (conditionOf s call) (fun r c => Bit s b extra r c ∧ c.Tells r (h.Strikes w)) (fun _ _ => False) :=
    (conditionOf_worth calls worth fine).imp fun r c h => ⟨h.1, h.2.congr same⟩
  cases guards with
  | @overflow op withSign t x y callee code call' sentinel number last' =>
    cases last
    obtain ⟨left, hasLeft⟩ := operands x (by simp [Hazard.operands])
    obtain ⟨right, hasRight⟩ := operands y (by simp [Hazard.operands])
    obtain ⟨sign, signed, isSet⟩ := truths.constIndex withSign
    refine (conditionOf_fine (.overflow (callsWith (kind_of_overflow sentinel) last') (constIndex_code number)
      (ofCode?_word op) signed left right (hasLeft.bits_eq ▸ hasRight)) fine).imp fun r c h => ⟨h.1, h.2.congr fun val => ?_⟩
    unfold wordOf Hazard.Strikes
    rw [isSet, hasLeft.bits_eq]
  | @shift t n y k cond callee call' number compare sentinel last' =>
    cases last
    obtain ⟨type, rfl⟩ := fits
    have mem : y ∈ (Hazard.shift t n y).operands := by simp [Hazard.operands]
    obtain ⟨positive, narrow⟩ := sized mem
    refine tells (callsWith (kind_of_fault sentinel) last') ((worth mem).compare compare (.int number type positive narrow))
      fun val => ?_
    show BitVec.ule _ _ = true ↔ _
    rw [BitVec.ule_eq_decide, decide_eq_true_iff, ofInt_width]
    rfl
  | @zeroDivisor t y k isZero callee call' number compare sentinel last' =>
    cases last
    have mem : y ∈ (Hazard.zeroDivisor t y).operands := by simp [Hazard.operands]
    obtain ⟨positive, narrow⟩ := sized mem
    refine tells (callsWith (kind_of_fault sentinel) last') ((worth mem).compare compare (.int number fits positive narrow))
      fun val => ?_
    show decide (_ = _) = true ↔ _
    rw [decide_eq_true_iff, ofInt_zero]
    rfl
  | @signedDivision t n x y k₀ isZero k₁ minusOne k₂ least both either callee call' zero compareZero one compareOne lowest
      compareLeast conjunction disjunction sentinel last' =>
      cases last
      obtain ⟨type, rfl⟩ := fits
      have first : x ∈ (Hazard.signedDivision t n x y).operands := by simp [Hazard.operands]
      have second : y ∈ (Hazard.signedDivision t n x y).operands := by simp [Hazard.operands]
      obtain ⟨positive, narrow⟩ := sized first
      have int {k : ValueId} {i : Int} (isInt : IsInt s.module k t i) : Worth s k n fun _ => BitVec.ofInt n i :=
        .int isInt type positive narrow
      have worthZero := (worth second).compare compareZero (int zero)
      have worthOne := (worth second).compare compareOne (int one)
      have worthLeast := (worth first).compare compareLeast (int lowest)
      have worthEither := worthZero.arith disjunction (worthOne.arith conjunction worthLeast)
      simp only [bit_or_and] at worthEither
      refine tells (callsWith (kind_of_fault sentinel) last') worthEither fun val => ?_
      have power : (0 : Int) < 2 ^ (n - 1) := by positivity
      have minusOne := eq_ofInt_iff (n := -1) positive (by omega) (by omega)
      have lowest := eq_ofInt_iff (n := -2 ^ (n - 1)) positive (le_refl _) (by omega)
      simp only [Bool.or_eq_true, Bool.and_eq_true, Compare.smt, decide_eq_true_iff, ofInt_zero, minusOne, twoPow_eq,
        Nat.cast_pow, Nat.cast_ofNat, lowest]
      rfl

/-! ## Instrumented modules -/

lemma ofModule_finished {tally : InsertTally} (closed : m.Closed) (done : (ofModule m).result = .ok tally) :
    Layout m (ofModule m).module fun _ f f' => Finished m (ofModule m).module f f' := by
  obtain ⟨p, same, reached, -⟩ := ofModule_invariant closed (kept_trivial m) done
  exact same ▸ reached.finished

lemma Complete.hasTruths (complete : Complete m) (alike : m.Alike c) : HasTruths c :=
  ⟨alike.global complete.onTrue rfl, alike.global complete.onFalse rfl⟩

/-- Before a guarded instruction of a block stands the call that ends its group. -/
lemma Weaves.guarded {block block' : Block} (weaves : Weaves m c g block block') (there : v ∈ block.insts)
    (due : Guarded m g v) :
    ∃ front others call after h, block'.insts.toList = front ++ others ++ call :: v :: after ∧
      Sentinel.isCall c call = true ∧ hazardOf m v = some h ∧ Guards c h (others ++ [call]) := by
  obtain ⟨front, group, after, split, before⟩ := weaves.woven.split_of_mem (Array.mem_toList_iff.2 there)
  cases before with
  | none free => exact absurd due free
  | @guards h others call _ hazard guards last _ _ =>
    exact ⟨front, others, call, after, h, by simp [split], last, hazard, guards⟩

lemma Guarded.int {name : Name} {type : Ty} {flags : List String} {trail : List (IR.Piece ValueId)}
    (due : Guarded m g v) (found : m.get? v = some (.inst name type (.arith op flags x y) trail)) :
    ∃ w, m.resolve (m.typeOf x) = .int w := by
  have computes {k : Check.Kind} (computes : Computes m v k) : ∃ w, m.resolve (m.typeOf x) = .int w := by
    obtain ⟨_, _, _, _, _, _, _, w, found', int, -⟩ := computes
    cases found.symm.trans found'
    exact ⟨w, int⟩
  rcases due with shift | division | ⟨overflow, -⟩
  · exact computes shift
  · exact computes division
  · exact computes overflow

/-- The condition of a call that guards an instruction tells whether that instruction goes wrong. -/
lemma Guards.tells_faults {s' : Setting} {name : Name} {type : Ty} {flags : List String} {trail : List (IR.Piece ValueId)}
    (truths : HasTruths s'.module) (mirrors : Mirrors s s')
    (found : s.module.get? v = some (.inst name type (.arith op flags x y) trail)) (int : s.module.resolve (s.module.typeOf x) = .int w)
    (hazard : hazardOf s.module v = some h) (guards : Guards s'.module h group) (last : group.getLast? = some call)
    (left : Proper s x) (right : Proper s y) (hasLeft : HasBits s x w) (hasRight : HasBits s y w) (fine : Fine s' b extra) :
    Ends b (conditionOf s' call) (fun r c => Bit s' b extra r c ∧ c.Tells r fun val =>
      Faults op (flags.contains "nsw") (BitVec.ofNat w (val x)) (BitVec.ofNat w (val y))) (fun _ _ => False) := by
  obtain ⟨fits, operands, strikes⟩ := hazardOf_arith found int hazard
  have fits : h.Fits s'.module w := by
    cases h <;> simpa only [Hazard.Fits, mirrors.alike.resolve] using fits
  refine (guards.tells truths last fits (fun z mem => ?_) fine).imp fun r c h => ⟨h.1, h.2.congr strikes⟩
  rcases operands z mem with rfl | rfl
  · exact ⟨mirrors.proper left, mirrors.hasBits hasLeft⟩
  · exact ⟨mirrors.proper right, mirrors.hasBits hasRight⟩

/-- **A sentinel call carries the fault of the instruction it guards.** Directly before each guarded instruction of an
instrumented module stands a call of a sentinel. Its condition is never refused, and it is one under an assignment
exactly if the instruction goes wrong on the words that the operands have then. -/
theorem condition_exact {i : Nat} {f : Func} {block : Block} {tally : InsertTally} {name : Name} {type : Ty}
    {flags : List String} {trail : List (IR.Piece ValueId)} (complete : Complete s.module)
    (done : (ofModule s.module).result = .ok tally) (listed : s.module.funcs[i]? = some f)
    (graph : Graph.ofFunc s.module f = .ok g) (inside : block ∈ f.blocks) (there : v ∈ block.insts)
    (due : Guarded s.module g v) (found : s.module.get? v = some (.inst name type (.arith op flags x y) trail))
    (left : Proper s x) (right : Proper s y) (same : HasBits s y (bits s x)) :
    ∃ f' block' front call after, (ofModule s.module).module.funcs[i]? = some f' ∧ block' ∈ f'.blocks ∧
      block'.id = block.id ∧ block'.insts.toList = front ++ call :: v :: after ∧
      Sentinel.isCall (ofModule s.module).module call = true ∧
      ∀ s' : Setting, s'.module = (ofModule s.module).module → s'.layout = s.layout → ∀ b extra, Fine s' b extra →
        ∃ r c, outcome (conditionOf s' call) b = (.ok r, c) ∧ Bit s' b extra r c ∧ c.Tells r fun val =>
          Faults op (flags.contains "nsw") (BitVec.ofNat (bits s x) (val x)) (BitVec.ofNat (bits s x) (val y)) := by
  have layout := ofModule_finished complete.closed done
  obtain ⟨f', listed', -, g', graph', weaves⟩ := layout.funcs i f listed
  cases graph.symm.trans graph'
  obtain ⟨block', inside', weaves⟩ := exists_of_forall₂ weaves (Array.mem_toList_iff.2 inside)
  obtain ⟨front, others, call, after, h, split, isCall, hazard, guards⟩ := weaves.guarded there due
  refine ⟨f', block', front ++ others, call, after, listed', Array.mem_toList_iff.1 inside', by rw [weaves.same], split, isCall,
    fun s' same' layout' b extra fine => ?_⟩
  obtain ⟨w, int⟩ := due.int found
  have hasLeft : HasBits s x w := Analysis.hasBits_of_resolve int
  rw [hasLeft.bits_eq] at same ⊢
  rw [← same'] at guards
  have mirrors : Mirrors s s' := ⟨same' ▸ layout.alike, complete.closed, layout'⟩
  have truths : HasTruths s'.module := complete.hasTruths mirrors.alike
  exact (guards.tells_faults truths mirrors found int hazard (by simp) left right hasLeft same fine).exists_ok

lemma hasBits_param {name : Name} (found : s.module.get? v = some (.param name t))
    (int : s.module.resolve t = .int w) : HasBits s v w := by
  have same : s.module.typeOf v = t := by
    unfold Module.typeOf
    rw [found]
    rfl
  exact hasBits_of_resolve (same ▸ int)

lemma proper_param {name : Name} (found : s.module.get? v = some (.param name t))
    (int : s.module.resolve t = .int w) (positive : 0 < w) (narrow : w + w < widthLimit) : Proper s v := by
  have nothing : demands s v = [] := by
    unfold demands
    rw [found]
    split <;> rfl
  have written := Module.identText_of_name found rfl
  exact .intro ⟨found, hasBits_param found int, positive, narrow, trivial, fun _ => written, nofun⟩ (by simp [nothing])

def dividingSetting (c : Module) : Setting where
  module := c
  layout := {}
  graph := dividingGraph
  cut := {}

lemma dividing_complete : Complete dividing :=
  ⟨dividing_closed, by decide, rfl, rfl⟩

lemma dividing_proper {name : Name} (found : dividing.get? v = some (.param name (.int 32))) :
    Proper (dividingSetting dividing) v :=
  proper_param found rfl (by decide) (by decide)

/-- The call before a division of numbers of 32 bits, asked first of all. -/
theorem condition_exact_dividing : ∃ (block' : Block) (front after : List ValueId) (call : ValueId),
    block'.insts.toList = front ++ call :: 7 :: after ∧
    ∃ r c, outcome (conditionOf (dividingSetting (ofModule dividing).module) call)
      (dividingSetting (ofModule dividing).module).start = (.ok r, c) ∧ c.Tells r fun val =>
        Faults .sdiv false (BitVec.ofNat 32 (val 4)) (BitVec.ofNat 32 (val 5)) := by
  obtain ⟨tally, done⟩ := dividing_done
  have due : Guarded dividing dividingGraph 7 := guarded_of_hazard dividing_hazards.1 nofun
  have listed : (7 : ValueId) ∈ (⟨6, #[7, 8], some 9⟩ : Block).insts := by simp
  have inside : (⟨6, #[7, 8], some 9⟩ : Block) ∈ dividingFunc.blocks := by simp [dividingFunc]
  have found : dividing.get? 7 = some (.inst (.number 0) (.int 32) (.arith .sdiv [] 4 5) []) := rfl
  obtain ⟨f', block', front, call, after, -, -, -, split, -, told⟩ := condition_exact (s := dividingSetting dividing) (i := 0)
    dividing_complete done rfl dividing_graph inside listed due found (dividing_proper rfl) (dividing_proper rfl) rfl
  refine ⟨block', front, after, call, split, ?_⟩
  -- the instrumented module stays a name, so that nothing below is run
  rw [show (dividingSetting dividing).module = dividing from rfl] at told
  generalize (ofModule dividing).module = c at told ⊢
  obtain ⟨r, d, run, -, tells⟩ := told (dividingSetting c) rfl rfl _ 0 (Analysis.fine_start _)
  exact ⟨r, d, run, tells⟩

/-! ## Too many bits -/

lemma outcome_var (name : String) {a : Arena} (isOpen : a.closed = false) (positive : 0 < w) :
    ∃ text names, outcome (var w name) a = (.ok a.next, a.push ⟨w, .var text⟩ names) := by
  refine ⟨a.given name, a.names.insert (a.given name), ?_⟩
  simp only [var, add, outcome_bind, need, if_pos positive, outcome_pure, outcome_get,
    if_pos isOpen, outcome_modify]
  rfl

def single (s : Setting) (v : ValueId) (w : Nat) (text : String) (names : Std.HashSet String) : Bench where
  arena := ({} : Arena).push ⟨w, .var text⟩ names
  values := some [(v, 1)]
  paths := s.start.paths

lemma lookup_param {name : Name} (found : s.module.get? v = some (.param name t))
    (int : s.module.resolve t = .int w) (positive : 0 < w) :
    ∃ text names, outcome (lookup s v) s.start = (.ok 1, single s v w text names) := by
  have width : s.width? (s.module.typeOf v) = some w := hasBits_param found int
  obtain ⟨text, written⟩ := Module.ident_writes_of_name found rfl
  have ident : s.ident v = pure text := by
    unfold Setting.ident Module.identText
    rw [written]
    rfl
  obtain ⟨text', names, made⟩ := outcome_var text (a := {}) rfl positive
  refine ⟨text', names, ?_⟩
  unfold lookup lookupFrom express free
  simp only [outcome_bind, outcome_get, width, found, ident]
  rw [show s.start.values.bind (List.lookup v) = none from rfl]
  dsimp only
  simp only [outcome_bind, outcome_build, outcome_pure, show s.start.arena = {} from rfl, made, outcome_get]
  rfl

lemma lookup_single {text : String} {names : Std.HashSet String} :
    outcome (lookup s v) (single s v w text names) = (.ok 1, single s v w text names) := by
  unfold lookup lookupFrom
  simp [outcome_bind, outcome_get, single]

/-- A variable is not extended by its own width if the double wraps to nothing. -/
lemma umulOverflow_refused (text : String) (names : Std.HashSet String) (positive : 0 < w)
    (wraps : addWidth w w = 0) : Ends (({} : Arena).push ⟨w, .var text⟩ names) (umulOverflow 1 1)
      (fun _ _ => False) fun e _ => e = .zeroWidth .zext := by
  have held : outcome (held 1) (({} : Arena).push ⟨w, .var text⟩ names) =
      (.ok ⟨w, .var text⟩, ({} : Arena).push ⟨w, .var text⟩ names) := rfl
  have width : outcome (sameWidth 1 1) (({} : Arena).push ⟨w, .var text⟩ names) =
      (.ok w, ({} : Arena).push ⟨w, .var text⟩ names) := by
    unfold sameWidth width need
    simp [outcome_bind, held]
  have refused : outcome (zext 1 w) (({} : Arena).push ⟨w, .var text⟩ names) =
      (.error (.zeroWidth .zext), ({} : Arena).push ⟨w, .var text⟩ names) := by
    unfold zext add need
    simp [outcome_bind, held, positive.ne', wraps, Term.op]
  refine Ends.of_error (t := ({} : Arena).push ⟨w, .var text⟩ names) ?_ rfl
  rw [umulOverflow, outcome_bind, width]
  dsimp only
  rw [inWider, keeping, outcome_bind, refused]

lemma conditionOf_refused {name : Name} {code flag : ValueId} {number sign : Int}
    (calls : CallsWith s call .overflow [code, x, x, flag])
    (numbered : constIndex s.module code = .ok (some number))
    (known : Sentinel.Guarded.ofCode? (word number) = some .mul)
    (signed : constIndex s.module flag = .ok (some sign)) (plain : (sign != 0) = false)
    (found : s.module.get? x = some (.param name t)) (int : s.module.resolve t = .int w) (positive : 0 < w)
    (wraps : addWidth w w = 0) :
    Ends s.start (conditionOf s call) (fun _ _ => False) fun e _ => e = .zeroWidth .zext := by
  obtain ⟨text, names, first⟩ := lookup_param found int positive
  obtain ⟨_, _, called, _, there, kind, args⟩ := calls
  unfold conditionOf condition
  rw [there]
  dsimp only
  rw [kind, args]
  refine Ends.bind (lift_read numbered) ?_
  rintro _ _ ⟨rfl, rfl⟩
  refine Ends.bind (lift_read signed) ?_
  rintro _ _ ⟨rfl, rfl⟩
  refine Ends.bind (Ends.of_ok first (Q := fun r b => r = 1 ∧ b = single s x w text names) ⟨rfl, rfl⟩) ?_
  rintro _ _ ⟨rfl, rfl⟩
  refine Ends.bind (Ends.of_ok lookup_single (Q := fun r b => r = 1 ∧ b = single s x w text names) ⟨rfl, rfl⟩) ?_
  rintro _ _ ⟨rfl, rfl⟩
  rw [known, plain]
  have refused := Ends.build (b := single s x w text names) (umulOverflow_refused text names positive wraps)
  exact refused.mono (fun _ _ h => h.2) fun _ _ h => h.2

def squaringFunc (w : Nat) : Func where
  id := 3
  name := Text.utf8 "f"
  result := .int w
  params := [⟨4, ""⟩]
  blocks := #[⟨5, #[6], some 7⟩]

def squaring (w : Nat) : Module where
  defs := IR.shared ++ #[.func (.named (Text.utf8 "f")) .void, .param (.named (Text.utf8 "x")) (.int w), .block (.number 0),
    .inst (.number 0) (.int w) (.arith .mul [] 4 4) [], .term (.number 0) .void (.ret (some 6)) []]
  funcs := #[squaringFunc w]

def squaringGraph (w : Nat) : Graph where
  func := squaringFunc w
  index := (∅ : Std.HashMap ValueId Nat).insert 5 0
  preds := #[[]]
  succs := #[[]]
  ids := ((∅ : Std.HashMap ValueId Nat).insert 6 0).insert 7 1
  blockOf := #[0, 0]
  users := (∅ : Std.HashMap ValueId (List ValueId)).insert 6 ((∅ : Std.HashMap ValueId (List ValueId)).getD 6 [] ++ [7])

lemma squaring_graph (w : Nat) : Graph.ofFunc (squaring w) (squaringFunc w) = .ok (squaringGraph w) := rfl

lemma squaring_complete (w : Nat) : Complete (squaring w) := by
  have reads : ∀ d ∈ (squaring w).defs.toList, ∀ x ∈ d.operands, x < 8 := by
    simp [squaring, IR.shared, Def.operands, Inst.operands, IR.Term.operands]
  refine ⟨⟨fun v d found => reads d (Array.mem_toList_iff.2 (Array.mem_of_getElem? found)), ?_⟩, ?_, rfl, rfl⟩
  · have locals : ∀ v ∈ (squaringFunc w).locals, v < 8 := by simp [squaringFunc, Func.locals]
    simpa [squaring, IR.shared] using locals
  · simp [squaring, squaringFunc, Func.locals]

lemma squaring_hazard (w : Nat) : hazardOf (squaring w) 6 = some (.overflow .mul false (.int w) 4 4) :=
  rfl

lemma squaring_observable (w : Nat) : observable (squaring w) (squaringGraph w) 6 = .ok true := by
  have used : (squaringGraph w).usersOf 6 = [7] := by
    simp [Graph.usersOf, squaringGraph]
  unfold observable
  rw [used]
  show observableFrom _ _ (_ + 1) ∅ [7] = _
  unfold observableFrom
  simp [isSpeculatable, squaring, IR.shared, Module.get?]

lemma squaring_fit (w : Nat) : Fit (squaring w) (squaringFunc w) := by
  refine ⟨by simp [squaringFunc, Func.locals], squaringGraph w, squaring_graph w, fun b mem v listed unfit => ?_⟩
  cases List.mem_singleton.1 mem
  cases List.mem_singleton.1 listed
  obtain ⟨h, hazard, signless | ⟨-, e, refused⟩⟩ := unfit
  · obtain ⟨t, x, y, rfl⟩ := signless
    cases (squaring_hazard w).symm.trans hazard
  · rw [squaring_observable] at refused
    cases refused

/-- The call that guards the square of `2 ^ 63` bits has no condition. -/
lemma squaring_refused {c : Module}
    (layout : Layout (squaring (twoPow 63)) c fun _ f f' => Finished (squaring (twoPow 63)) c f f') :
    ∃ f' block' front call after, c.funcs[0]? = some f' ∧ block' ∈ f'.blocks ∧
      block'.insts.toList = front ++ call :: 6 :: after ∧ Sentinel.isCall c call = true ∧
      ∀ s' : Setting, s'.module = c → ∃ b, outcome (conditionOf s' call) s'.start = (.error (.zeroWidth .zext), b) := by
  have complete := squaring_complete (twoPow 63)
  have due : Guarded (squaring (twoPow 63)) (squaringGraph (twoPow 63)) 6 :=
    guarded_of_hazard (squaring_hazard _) fun _ => squaring_observable _
  obtain ⟨f', listed, -, g, graph, weaves⟩ := layout.funcs 0 (squaringFunc (twoPow 63)) rfl
  cases (squaring_graph _).symm.trans graph
  obtain ⟨block', inside, weaves⟩ := exists_of_forall₂ weaves (x := ⟨5, #[6], some 7⟩) (by simp [squaringFunc])
  obtain ⟨front, others, call, after, h, split, isCall, hazard, guards⟩ := weaves.guarded (v := 6) (by simp) due
  refine ⟨f', block', front ++ others, call, after, listed, Array.mem_toList_iff.1 inside, split, isCall, fun s' same => ?_⟩
  subst same
  cases (squaring_hazard _).symm.trans hazard
  obtain ⟨param, found, bare⟩ := layout.alike.get? (v := 4) (d := .param (.named (Text.utf8 "x")) (.int (twoPow 63))) rfl
  cases IR.Def.eq_of_bare (by simp [Def.local?]) bare
  have truths := complete.hasTruths layout.alike
  generalize last : others ++ [call] = group at guards
  cases guards with
  | @overflow _ _ _ _ _ callee code call' sentinel number isCall =>
    obtain ⟨rfl, same⟩ | ⟨-, none⟩ := List.append_eq_singleton_iff.1 last
    · cases same
      obtain ⟨sign, signed, plain⟩ := truths.constIndex false
      have refused := conditionOf_refused (callsWith (kind_of_overflow sentinel) isCall) (constIndex_code number)
        (ofCode?_word .mul) signed plain found rfl (by decide) (by decide)
      obtain ⟨e, b, run⟩ := refused.exists_error
      obtain rfl := (Ends.iff_forall.1 refused).2 e b run
      exact ⟨b, run⟩
    · cases none

lemma squaring_granted (w : Nat) : ∃ tally, (ofModule (squaring w)).result = .ok tally :=
  ofModule_granted (squaring_complete w).closed fun f mem _ => by
    cases List.mem_singleton.1 (Array.mem_toList_iff.2 mem)
    exact squaring_fit w

/-- The instrumented square of `2 ^ 63` bits: the call before the product has no condition. -/
theorem condition_refused : Guarded (squaring (twoPow 63)) (squaringGraph (twoPow 63)) 6 ∧
    ∃ tally f' block' front call after, (ofModule (squaring (twoPow 63))).result = .ok tally ∧
      (ofModule (squaring (twoPow 63))).module.funcs[0]? = some f' ∧ block' ∈ f'.blocks ∧
      block'.insts.toList = front ++ call :: 6 :: after ∧
      ∀ s' : Setting, s'.module = (ofModule (squaring (twoPow 63))).module →
        ∃ b, outcome (conditionOf s' call) s'.start = (.error (.zeroWidth .zext), b) := by
  obtain ⟨tally, done⟩ := squaring_granted (twoPow 63)
  have layout := ofModule_finished (squaring_complete (twoPow 63)).closed done
  refine ⟨guarded_of_hazard (squaring_hazard _) fun _ => squaring_observable _, tally, ?_⟩
  generalize (ofModule (squaring (twoPow 63))).result = result at done ⊢
  generalize (ofModule (squaring (twoPow 63))).module = c at layout ⊢
  obtain ⟨f', block', front, call, after, listed, inside, split, -, refused⟩ := squaring_refused layout
  exact ⟨f', block', front, call, after, done, listed, inside, split, refused⟩

end Faultline.Instrument
