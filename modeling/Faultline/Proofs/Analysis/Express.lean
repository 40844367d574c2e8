/-
# Proofs.Analysis.Express — typed values are expressed by what they mean

A bench fits a family `T` of typed values (`Fit`) when it knows only values of `T`
and every formula it knows has the bits of its value, is the variable of a free
value or evaluates to the meaning of its value, and is owned by the engine.

To look up a typed value keeps the bench fitting and leaves the value known
(`lookup_fit`), unless it is refused, and then for a `Cause`: a constant is too wide
to be stored, or a name cannot be written. A bench is `Fine` when it fits the proper
values; there is no cause to refuse those.
-/
import Faultline.Proofs.Analysis.Meaning
import Faultline.Proofs.Formula.Owned

namespace Faultline

open IR (ValueId)
open Formula (Arena Handle)

namespace Bench

variable {b c : Bench} {extra : Multiset Handle} {f : Handle} {w : Nat} {value : (ValueId → Nat) → BitVec w}

lemma reading_of_known {v : ValueId} {h : Handle} (known : b.formula? v = some h) (assign : Handle → Nat) :
    b.reading assign v = b.arena.eval assign h := by
  rw [reading, known]
  rfl

lemma Grows.reading (grows : b.Grows c) (kept : b.Kept) {v : ValueId} {h : Handle} (known : b.formula? v = some h)
    (assign : Handle → Nat) : c.reading assign v = b.reading assign v := by
  obtain ⟨n, found⟩ := kept.node known
  rw [reading_of_known known, reading_of_known (grows.formula known),
    Arena.eval_of_grows kept.wellFormed.toWellTyped grows.arena found]

/-- A formula that the engines own, or that is owned besides, and the word it stands for. -/
structure Owns (b : Bench) (extra : Multiset Handle) (f : Handle) {w : Nat} (value : (ValueId → Nat) → BitVec w) :
    Prop where
  mem : f ∈ b.owned + extra
  means : b.Means f value

lemma Owns.has (owns : b.Owns extra f value) :
    b.arena.Has (b.owned + extra) f fun assign => BitVec.ofNat w (b.arena.eval assign f) :=
  .of_mem owns.mem owns.means.width

end Bench

namespace Analysis

open IR (Ty Def Inst)
open Formula (Build widthLimit widthRange subWidth widen)

variable {s : Setting} {T : ValueId → Prop} {why : Fault → Prop} {b c d : Bench} {u v x y : ValueId} {w n : Nat}
  {f g h r : Handle} {extra : Multiset Handle} {α β : Type}

/-! ## Benches that fit -/

structure Fit (s : Setting) (T : ValueId → Prop) (b : Bench) (extra : Multiset Handle) : Prop extends Sound s b where
  stocked : b.arena.Stocked b.IsCached (b.owned + extra)
  within : ∀ {v h}, b.formula? v = some h → T v
  width : ∀ {v h}, b.formula? v = some h → b.arena.widthOf h = bits s v
  operands : ∀ {v h}, b.formula? v = some h → ∀ x ∈ demands s v, Known x b
  value : ∀ {v h}, b.formula? v = some h → ∀ assign n, meaning? s (b.reading assign) v = some n →
    b.arena.eval assign h = n
  free : ∀ {v h}, b.formula? v = some h → IsFree s v → ∀ assign, b.arena.eval assign h = assign h % 2 ^ bits s v
  apart : ∀ {u v h}, b.formula? u = some h → b.formula? v = some h → IsFree s u → IsFree s v → u = v

structure Fine (s : Setting) (b : Bench) (extra : Multiset Handle) : Prop extends Sound s b where
  stocked : b.arena.Stocked b.IsCached (b.owned + extra)
  proper : ∀ {v h}, b.formula? v = some h → Proper s v
  width : ∀ {v h}, b.formula? v = some h → b.arena.widthOf h = bits s v
  operands : ∀ {v h}, b.formula? v = some h → ∀ x ∈ demands s v, Known x b
  value : ∀ {v h}, b.formula? v = some h → ∀ assign n, meaning? s (b.reading assign) v = some n →
    b.arena.eval assign h = n
  free : ∀ {v h}, b.formula? v = some h → IsFree s v → ∀ assign, b.arena.eval assign h = assign h % 2 ^ bits s v
  apart : ∀ {u v h}, b.formula? u = some h → b.formula? v = some h → IsFree s u → IsFree s v → u = v

lemma fit_proper : Fit s (Proper s) b extra ↔ Fine s b extra :=
  ⟨fun fit => { fit with proper := fit.within }, fun fine => { fine with within := fine.proper }⟩

lemma Fit.of_arena {extra' : Multiset Handle} (fit : Fit s T b extra) (same : c = { b with arena := c.arena })
    (grows : b.arena.Grows c.arena) (stocked : c.arena.Stocked b.IsCached (b.owned + extra')) :
    Fit s T c extra' := by
  have step : Step s (fun _ => False) b c := .of_keeps fit.toSound same ⟨grows, stocked.wellFormed⟩
  have formula (v : ValueId) : c.formula? v = b.formula? v := by rw [same]; rfl
  have eval {v : ValueId} {h : Handle} (known : c.formula? v = some h) :
      c.arena.widthOf h = b.arena.widthOf h ∧ ∀ assign, c.arena.eval assign h = b.arena.eval assign h := by
    obtain ⟨n, found⟩ := fit.node ((formula v).symm.trans known)
    exact ⟨grows.widthOf found, fun assign => Arena.eval_of_grows fit.wellFormed.toWellTyped grows found⟩
  refine ⟨step.sound, ?_, fun {v h} known => ?_, fun {v h} known => ?_, fun {v h} known x demanded => ?_,
    fun {v h} known assign n means => ?_, fun {v h} known free assign => ?_, fun {u v h} known known' => ?_⟩
  · rw [same]
    exact stocked
  · exact fit.within ((formula v).symm.trans known)
  · exact (eval known).1.trans (fit.width ((formula v).symm.trans known))
  · exact (fit.operands ((formula v).symm.trans known) x demanded).of_grows step.grows
  · have before := (formula v).symm.trans known
    have kept : meaning? s (c.reading assign) v = meaning? s (b.reading assign) v := by
      refine meaning?_congr fun x demanded => ?_
      obtain ⟨g, there⟩ := fit.operands before x demanded
      exact step.grows.reading fit.toKept there assign
    rw [(eval known).2]
    exact fit.value before assign n (kept ▸ means)
  · rw [(eval known).2]
    exact fit.free ((formula v).symm.trans known) free assign
  · exact fit.apart ((formula u).symm.trans known) ((formula v).symm.trans known')

lemma Fit.mem (fit : Fit s T b extra) (known : b.formula? v = some h) : h ∈ b.owned + extra :=
  fit.stocked.held h (Bench.mem_cached known)

lemma Fit.owns (fit : Fit s T b extra) (known : b.formula? v = some h) (has : HasBits s v w) :
    b.Owns extra h fun val => BitVec.ofNat w (val v) := by
  have width : b.arena.widthOf h = w := (fit.width known).trans has.bits_eq
  refine ⟨fit.mem known, fit.node known, width, fun assign val agrees => ?_⟩
  rw [agrees v h known, BitVec.toNat_ofNat, Nat.mod_eq_of_lt (width ▸ b.arena.eval_lt assign h)]

lemma Fit.reading_lt (fit : Fit s T b extra) (assign : Handle → Nat) (x : ValueId) :
    b.reading assign x < 2 ^ bits s x := by
  rcases known : b.formula? x with _ | h
  · rw [Bench.reading, known]
    exact Nat.two_pow_pos _
  · rw [Bench.reading_of_known known, ← fit.width known]
    exact b.arena.eval_lt assign h

/-! ## At work on a bench that fits -/

/-- `x` goes on in good order. If it is refused, there is a reason, and the bench fits with what is left behind. -/
def Tries (s : Setting) (T : ValueId → Prop) (why : Fault → Prop) (b : Bench) (x : Analyze α) (Q : α → Bench → Prop) :
    Prop :=
  Ends b x (fun r c => Step s (fun _ => True) b c ∧ Q r c) (fun e c => (∃ left, Fit s T c left) ∧ why e)

namespace Tries

variable {m : Analyze α} {k : α → Analyze β} {Q Q' : α → Bench → Prop} {R : β → Bench → Prop}

lemma bind (first : Tries s T why b m Q)
    (next : ∀ r c, Step s (fun _ => True) b c → Q r c → Tries s T why c (k r) R) : Tries s T why b (m >>= k) R := by
  refine Ends.bind first fun r c ⟨step, holds⟩ => ?_
  exact (next r c step holds).imp fun _ _ h => ⟨step_discipline.trans step h.1, h.2⟩

lemma pure {a : α} (fit : Fit s T b extra) (holds : Q a b) : Tries s T why b (Pure.pure a) Q :=
  Ends.pure ⟨.refl fit.toSound, holds⟩

lemma imp (tries : Tries s T why b m Q) (result : ∀ r c, Q r c → Q' r c) : Tries s T why b m Q' :=
  Ends.imp tries fun r c h => ⟨h.1, result r c h.2⟩

lemma read {p : α → Prop} (fit : Fit s T b extra)
    (reads : Ends b m (fun a c => b = c ∧ p a) (fun e c => b = c ∧ why e)) (next : ∀ a, p a → Tries s T why b (k a) R) :
    Tries s T why b (m >>= k) R := by
  refine Ends.bind (reads.blame fun e c h => ⟨⟨extra, h.1 ▸ fit⟩, h.2⟩) ?_
  rintro a _ ⟨rfl, holds⟩
  exact next a holds

end Tries

/-- A result `r` that is owned besides and stands for `value`. -/
structure Yields (s : Setting) (T : ValueId → Prop) (extra : Multiset Handle) {w : Nat}
    (value : (ValueId → Nat) → BitVec w) (r : Handle) (c : Bench) : Prop where
  fit : Fit s T c (r ::ₘ extra)
  means : c.Means r value

section Yields

variable {value value' : (ValueId → Nat) → BitVec w}

lemma Yields.congr (yields : Yields s T extra value r c) (same : ∀ val, value val = value' val) :
    Yields s T extra value' r c :=
  ⟨yields.fit, yields.means.retype rfl fun val => congrArg BitVec.toNat (same val)⟩

lemma Yields.retype {value' : (ValueId → Nat) → BitVec n} (yields : Yields s T extra value r c) (width : w = n)
    (same : ∀ val, (value val).toNat = (value' val).toNat) : Yields s T extra value' r c :=
  ⟨yields.fit, yields.means.retype width same⟩

lemma Yields.owns {S : ValueId → Prop} {extra' : Multiset Handle} (yields : Yields s T extra value r c)
    (step : Step s S c d) (mem : r ∈ extra') : d.Owns extra' r value :=
  ⟨Multiset.mem_add.2 (.inr mem), yields.means.of_grows yields.fit.toKept step.grows⟩

lemma Yields.here (yields : Yields s T extra value r c) : c.Owns (r ::ₘ extra) r value :=
  ⟨by simp, yields.means⟩

end Yields

namespace Fit

section Builders

variable {X Y : (ValueId → Nat) → BitVec w} (fit : Fit s T b extra)

include fit

lemma given {word : (Handle → Nat) → BitVec w} {value : (ValueId → Nat) → BitVec w}
    (same : c = { b with arena := c.arena }) (gives : b.arena.Gives b.IsCached (b.owned + extra) r c.arena word)
    (means : ∀ assign val, b.Agrees assign val → word assign = value val) : Yields s T extra value r c := by
  have grows : b.Grows c := ⟨gives.grows, fun {v h} known => by rw [same]; exact known⟩
  refine ⟨fit.of_arena same gives.grows (Multiset.add_cons r b.owned extra ▸ gives.stocked), gives.stocked.node (by simp),
    gives.width, fun assign val agrees => ?_⟩
  rw [gives.value, means assign val (agrees.of_grows fit.toKept grows)]

lemma build {x : Build Handle} {word : (Handle → Nat) → BitVec w} {value : (ValueId → Nat) → BitVec w}
    (ends : Ends b.arena x (fun r a => b.arena.Gives b.IsCached (b.owned + extra) r a word)
      (fun e a => b.arena = a ∧ why e))
    (means : ∀ assign val, b.Agrees assign val → word assign = value val) :
    Tries s T why b (Faultline.build x) (Yields s T extra value) := by
  refine (Ends.build ends).mono (fun r c h => ?_) fun e c h => ?_
  · exact ⟨.of_keeps fit.toSound h.1 ⟨h.2.grows, h.2.stocked.wellFormed⟩, fit.given h.1 h.2 means⟩
  · refine ⟨⟨extra, ?_⟩, h.2.2⟩
    rw [h.1, ← h.2.1]
    exact fit

lemma const (k : Int) (positive : 0 < w) (long : widthLimit ≤ w → why .constTooWide) :
    Tries s T why b (Faultline.build (Formula.const w k)) (Yields s T extra fun _ => BitVec.ofInt w k) := by
  refine fit.build ((Formula.const_tries fit.stocked k positive).blame fun e a h => ?_) fun _ _ _ => rfl
  obtain ⟨rfl, rfl, wide⟩ := h
  exact ⟨rfl, long wide⟩

lemma ext (withSign : Bool) (owns : b.Owns extra f X) (le : w ≤ n) (short : n < widthRange)
    (long : widthLimit ≤ n → why .constTooWide) :
    Tries s T why b (Faultline.build (Formula.Builder.ext withSign f (n - w)).run)
      (Yields s T extra fun val => widen withSign (X val) n) := by
  have sum : w + (n - w) = n := Nat.add_sub_cancel' le
  have tries : Tries s T why b (Faultline.build (Formula.Builder.ext withSign f (n - w)).run)
      (Yields s T extra fun val => widen withSign (X val) (w + (n - w))) := by
    refine fit.build ((Formula.ext_tries fit.stocked withSign owns.has (sum.trans_lt short)).blame
      fun e a h => ?_) fun assign val agrees => ?_
    · obtain ⟨rfl, rfl, wide⟩ := h
      exact ⟨rfl, long (sum ▸ wide)⟩
    · rw [owns.means.word agrees]
  rwa [sum] at tries

lemma binary (op : Formula.Binary) (left : b.Owns extra f X) (right : b.Owns extra g Y) :
    Tries s T why b (Faultline.build (Formula.binary op f g)) (Yields s T extra fun val => op.smt (X val) (Y val)) := by
  refine fit.build (Formula.binary_gives fit.stocked op left.has right.has).granted fun assign val agrees => ?_
  rw [left.means.word agrees, right.means.word agrees]

lemma extractLow (owns : b.Owns extra f X) (positive : 0 < n) (le : n ≤ w) :
    Tries s T why b (Faultline.build (Formula.extract f (n - 1) 0)) (Yields s T extra fun val => (X val).setWidth n) := by
  have tries : Tries s T why b (Faultline.build (Formula.extract f (n - 1) 0))
      (Yields s T extra fun val => (X val).extractLsb (n - 1) 0) := by
    refine fit.build (Formula.extract_gives fit.stocked owns.has (Nat.zero_le _) (by omega)).granted
      fun assign val agrees => ?_
    rw [owns.means.word agrees]
  refine tries.imp fun r c yields => yields.retype (by omega) fun val => ?_
  rw [BitVec.extractLsb_toNat, Nat.shiftRight_zero, BitVec.toNat_setWidth, show n - 1 - 0 + 1 = n by omega]

lemma retain (owns : b.Owns extra f X) :
    Tries s T why b (Faultline.build (Formula.retain f)) fun r c => r = f ∧ Yields s T extra X r c := by
  refine (Ends.build (Formula.retain_gives fit.stocked owns.has)).mono (fun r c h => ?_) fun _ _ h => h.2.elim
  obtain ⟨same, copied, gives⟩ := h
  exact ⟨.of_keeps fit.toSound same ⟨gives.grows, gives.stocked.wellFormed⟩, copied,
    fit.given same gives fun assign val agrees => owns.means.word agrees⟩

lemma width_read (owns : b.Owns extra f X) :
    Ends b (Faultline.build (Formula.width f)) (fun n c => b = c ∧ w = n) (fun e c => b = c ∧ why e) := by
  refine (Ends.build (Formula.width_gives fit.stocked owns.has)).mono (fun n c h => ?_) fun _ _ h => h.2.elim
  obtain ⟨same, arena, width⟩ := h
  exact ⟨by rw [same, ← arena], width⟩

lemma log (fields : LogFields) (message : String) :
    Tries s T why b (s.logEntry fields message) fun _ c => Fit s T c extra := by
  have step : Step s (fun _ => True) b { b with log := b.log.push ⟨.debug, message, fields⟩ } :=
    ⟨⟨⟨fit.wellFormed, fit.node⟩, fit.open_, fit.grounded⟩, ⟨.refl _, id⟩, rfl, fun known => .inl ⟨_, known⟩⟩
  exact ⟨step, step.sound, fit.stocked, fit.within, fit.width, fit.operands, fit.value, fit.free, fit.apart⟩

end Builders

lemma release {fs : List Handle} {held : Multiset Handle} (fit : Fit s T b held) (split : held = ↑fs + extra) :
    Tries s T why b (Faultline.build (Formula.release fs)) fun _ c => Fit s T c extra := by
  subst split
  have backed : b.arena.Backed (↑fs + (b.owned + extra)) := by
    rw [add_left_comm]
    exact fit.stocked.backed
  refine (Ends.build (Formula.release_granted fs fit.wellFormed fit.stocked.tame backed)).mono
    (fun _ c h => ?_) fun _ _ h => h.2.elim
  obtain ⟨same, keeps, tame, backed⟩ := h
  exact ⟨.of_keeps fit.toSound same keeps, fit.of_arena same keeps.grows ⟨⟨keeps.wellFormed, tame, backed⟩,
    fun g allowed => Multiset.mem_add.2 (.inl (Multiset.mem_add.2 (.inl allowed)))⟩⟩

end Fit

/-! ## One form after the other -/

lemma ident_read (own : s.module.identText v = none → why .unprintable) :
    Ends b (s.ident v) (fun _ c => b = c ∧ True) (fun e c => b = c ∧ why e) := by
  unfold Setting.ident
  rcases written : s.module.identText v with _ | text
  · exact Ends.throw ⟨rfl, own written⟩
  · exact Ends.pure ⟨rfl, trivial⟩

lemma widthOrFault_read {t : Ty} (has : s.width? t = some w) :
    Ends b (widthOrFault s t) (fun n c => b = c ∧ w = n) (fun e c => b = c ∧ why e) := by
  unfold widthOrFault
  rw [has]
  exact Ends.pure ⟨rfl, rfl⟩

lemma lift_read {e : Except Fault α} {a : α} {E : Fault → Bench → Prop} (ok : e = .ok a) :
    Ends b (liftM e : Analyze α) (fun r c => b = c ∧ a = r) E := by
  subst ok
  exact Ends.pure ⟨rfl, rfl⟩

lemma subWidth_eq (le : n ≤ w) (short : w < widthRange) : subWidth w n = w - n := by
  rw [subWidth, Nat.sub_add_comm le, Nat.add_mod_right, Nat.mod_eq_of_lt (by omega)]

def LooksUp (s : Setting) (T : ValueId → Prop) (why : Fault → Prop) (look : ValueId → Analyze Handle) (x : ValueId) : Prop :=
  ∀ b extra, Fit s T b extra → Tries s T why b (look x) fun h c => Fit s T c extra ∧ c.formula? x = some h

/-- The formula `f` that was made of `v`. -/
structure Expresses (s : Setting) (T : ValueId → Prop) (extra : Multiset Handle) (v : ValueId) (f : Handle) (c : Bench) :
    Prop where
  fit : Fit s T c (f ::ₘ extra)
  width : c.arena.widthOf f = bits s v
  value : ∀ assign n, meaning? s (c.reading assign) v = some n → c.arena.eval assign f = n
  free : IsFree s v → (∀ assign, c.arena.eval assign f = assign f % 2 ^ bits s v) ∧
    ∀ {u h}, c.formula? u = some h → h ≠ f

lemma Yields.expresses {value : (ValueId → Nat) → BitVec w} (yields : Yields s T extra value f c) (has : HasBits s v w)
    (means : ∀ val, (∀ x, val x < 2 ^ bits s x) → meaning? s val v = some (value val).toNat) :
    Expresses s T extra v f c := by
  have small := yields.fit.reading_lt
  refine ⟨yields.fit, yields.means.width.trans has.bits_eq.symm, fun assign n there => ?_, fun free => ?_⟩
  · rw [means _ (small assign), Option.some.injEq] at there
    exact (yields.means.value assign _ (c.agrees_reading assign)).trans there
  · have none := free.meaning? (c.reading fun _ => 0)
    rw [means _ (small _)] at none
    cases none

section Express

variable {look : ValueId → Analyze Handle} {fd : Def ValueId}

lemma free_fit (typed : Typed s v w fd) (own : ∀ {e}, Reason s v e → why e) (named : isLiteral fd = false)
    (free_ : IsFree s v) (fit : Fit s T b extra) : Tries s T why b (free s v) (Expresses s T extra v) := by
  unfold free
  refine .read fit (ident_read fun absent => own (.unwritten typed.found named absent)) fun name _ => ?_
  rw [typed.bits]
  refine (Ends.build (Formula.var_gives fit.stocked name typed.positive)).mono (fun r c h => ?_) fun _ _ h => h.2.elim
  obtain ⟨same, fresh, gives⟩ := h
  refine ⟨.of_keeps fit.toSound same ⟨gives.grows, gives.stocked.wellFormed⟩, ?_, gives.width.trans typed.bits.bits_eq.symm,
    fun assign n means => ?_, fun _ => ⟨fun assign => ?_, fun {u h} known same' => ?_⟩⟩
  · exact fit.of_arena same gives.grows (Multiset.add_cons r b.owned extra ▸ gives.stocked)
  · rw [free_.meaning?] at means
    cases means
  · rw [gives.value, typed.bits.bits_eq]
    exact BitVec.toNat_ofNat _ _
  · have before : b.formula? u = some h := by
      rw [same] at known
      exact known
    have there := Arena.realized_of_count fit.wellFormed (fit.stocked.count_pos (fit.mem before))
    exact absurd there.2 (by rw [same', fresh]; exact lt_irrefl _)

lemma binary_fit (op : Formula.Binary) (left : LooksUp s T why look x) (right : LooksUp s T why look y)
    (hasLeft : HasBits s x n) (hasRight : HasBits s y n) (fit : Fit s T b extra) :
    Tries s T why b (binary look op x y)
      (Yields s T extra fun val => op.smt (BitVec.ofNat n (val x)) (BitVec.ofNat n (val y))) := by
  unfold binary
  refine .bind (left b extra fit) fun f c _ ⟨fit, known⟩ => ?_
  refine .bind (right c extra fit) fun g d step ⟨fit, known'⟩ => ?_
  exact fit.binary op (fit.owns (step.grows.formula known) hasLeft) (fit.owns known' hasRight)

lemma extend_fit {target : Ty} (withSign : Bool) (looks : LooksUp s T why look x) (has : HasBits s x n) (le : n ≤ w)
    (short : w < widthRange) (long : widthLimit ≤ w → why .constTooWide) (wide : s.width? target = some w)
    (fit : Fit s T b extra) :
    Tries s T why b (extend s look x target withSign)
      (Yields s T extra fun val => widen withSign (BitVec.ofNat n (val x)) w) := by
  unfold extend
  refine .bind (looks b extra fit) fun f c _ ⟨fit, known⟩ => ?_
  have owns := fit.owns known has
  refine .read fit (widthOrFault_read wide) ?_
  rintro _ rfl
  refine .read fit (fit.width_read owns) ?_
  rintro _ rfl
  rw [subWidth_eq le short]
  cases withSign
  · exact fit.ext false owns le short long
  · exact fit.ext true owns le short long

lemma trunc_fit {target : Ty} (looks : LooksUp s T why look x) (has : HasBits s x n) (le : w ≤ n) (positive : 0 < w)
    (short : w < widthRange) (wide : s.width? target = some w) (fit : Fit s T b extra) :
    Tries s T why b (ofInst s look v (.cast .trunc x target))
      (Yields s T extra fun val => (BitVec.ofNat n (val x)).setWidth w) := by
  unfold ofInst
  refine .bind (looks b extra fit) fun f c _ ⟨fit, known⟩ => ?_
  refine .read fit (widthOrFault_read wide) ?_
  rintro _ rfl
  rw [subWidth_eq positive short]
  exact fit.extractLow (fit.owns known has) positive le

lemma reinterpret_fit {target : Ty} (looks : LooksUp s T why look x) (has : HasBits s x n) (positive : 0 < w)
    (short : w < widthRange) (long : widthLimit ≤ w → why .constTooWide) (wide : s.width? target = some w)
    (fit : Fit s T b extra) :
    Tries s T why b (reinterpret s look x target) (Yields s T extra fun val => (BitVec.ofNat n (val x)).setWidth w) := by
  have sameBits : (s.extent (s.module.typeOf x)).bits = n := extent_bits has
  unfold reinterpret
  refine .bind (looks b extra fit) fun f c _ ⟨fit, known⟩ => ?_
  have owns := fit.owns known has
  refine .read fit (fit.width_read owns) ?_
  rintro _ rfl
  refine .read fit (widthOrFault_read wide) ?_
  rintro _ rfl
  dsimp only
  rw [sameBits, extent_bits wide]
  split
  · rename_i same
    obtain rfl : n = w := by simpa using same
    exact (fit.retain owns).imp fun r d h => h.2.congr fun val => (BitVec.setWidth_eq _).symm
  · split
    · rw [subWidth_eq positive short]
      exact fit.extractLow owns positive (by omega)
    · rename_i differ _
      simp only [decide_eq_true_eq, Bool.or_eq_true, beq_iff_eq, or_self] at differ
      exact fit.ext false owns (by omega) short long

/-- An index is its signed number, cut to the width of a pointer. -/
lemma pointerIndex_fit {fields : LogFields} (looks : LooksUp s T why look x) (has : HasBits s x n)
    (positive : 0 < s.layout.pointerBits) (short : s.layout.pointerBits < widthRange)
    (long : widthLimit ≤ s.layout.pointerBits → why .constTooWide) (fit : Fit s T b extra) :
    Tries s T why b (pointerIndex s look fields x)
      (Yields s T extra fun val => (BitVec.ofNat n (val x)).signExtend s.layout.pointerBits) := by
  unfold pointerIndex
  refine .bind (looks b extra fit) fun f c _ ⟨fit, known⟩ => ?_
  refine .read fit (fit.width_read (fit.owns known has)) ?_
  rintro _ rfl
  dsimp only
  split
  · refine .bind (fit.log _ _) fun _ d step fit => ?_
    exact fit.ext true (fit.owns (step.grows.formula known) has) (by omega) short long
  · split
    · refine .bind (fit.log _ _) fun _ d step fit => ?_
      rw [subWidth_eq positive short]
      refine (fit.extractLow (fit.owns (step.grows.formula known) has) positive (by omega)).imp fun r e yields =>
        yields.congr fun val => ?_
      rw [BitVec.signExtend_eq_setWidth_of_le _ (by omega)]
    · obtain rfl : n = s.layout.pointerBits := by omega
      exact (fit.retain (fit.owns known has)).imp fun r d h => h.2.congr fun val => (BitVec.signExtend_eq _).symm

section Address

variable {A : (ValueId → Nat) → BitVec s.layout.pointerBits} {addr : Handle} {offset : Int} {fields : LogFields}
  (positive : 0 < s.layout.pointerBits) (short : s.layout.pointerBits < widthRange)
  (long : widthLimit ≤ s.layout.pointerBits → why .constTooWide)

include positive short long

/-- One computed index: its number times the size of what it steps over is added to the address. -/
lemma scaled_fit {size : Nat} {next : Handle → Analyze β} {Q : β → Bench → Prop} (looks : LooksUp s T why look x)
    (has : HasBits s x n) (before : Yields s T extra A addr b)
    (goesOn : ∀ r c, Yields s T extra (fun val =>
      A val + BitVec.ofInt s.layout.pointerBits ((BitVec.ofNat n (val x)).toInt * size)) r c → Tries s T why c (next r) Q) :
    Tries s T why b (do
      let index ← pointerIndex s look fields x
      let scale ← build (Formula.const s.layout.pointerBits size)
      let term ← build (Formula.arith .mul index scale)
      let sum ← build (Formula.arith .add addr term)
      build (Formula.release [index, scale, term, addr])
      next sum) Q := by
  refine .bind (pointerIndex_fit looks has positive short long before.fit) fun index c₁ step₁ indexed => ?_
  refine .bind (indexed.fit.const size positive long) fun scale c₂ step₂ scaled => ?_
  refine .bind (scaled.fit.binary (.arith .mul) (indexed.owns step₂ (by simp)) scaled.here) fun term c₃ step₃ product => ?_
  have base : c₃.Owns (term ::ₘ scale ::ₘ index ::ₘ addr ::ₘ extra) addr A :=
    before.owns (step_discipline.trans (step_discipline.trans step₁ step₂) step₃) (by simp)
  refine .bind (product.fit.binary (.arith .add) base product.here) fun sum c₄ _ added => ?_
  have split : sum ::ₘ term ::ₘ scale ::ₘ index ::ₘ addr ::ₘ extra = ↑[index, scale, term, addr] + (sum ::ₘ extra) := by
    simp only [← Multiset.cons_coe, Multiset.coe_nil, ← Multiset.singleton_add]
    abel
  refine .bind (added.fit.release split) fun _ c₅ step₅ fit => ?_
  refine goesOn sum c₅ ⟨fit, (added.means.of_grows added.fit.toKept step₅.grows).retype rfl fun val => ?_⟩
  rw [BitVec.ofInt_mul, BitVec.ofInt_natCast]
  rfl

/-- All indices are stepped over, unless one of them is refused. -/
lemma steps_fit {owner : ValueId} {indices : List ValueId} {isFirst : Bool} {t : Ty}
    (looks : ∀ x ∈ indices, isComputed s.module x → LooksUp s T why look x ∧ ∃ n, HasBits s x n ∧ 0 < n)
    (outside : ¬ StepsInto s indices isFirst t → ∀ e, why e) (before : Yields s T extra A addr b) :
    Tries s T why b (steps s look owner fields indices isFirst t addr offset) fun r c => StepsInto s indices isFirst t ∧
      ∃ A' : (ValueId → Nat) → BitVec s.layout.pointerBits, Yields s T extra A' r.1 c ∧
        ∀ val, A' val + BitVec.ofInt _ r.2 = A val + BitVec.ofInt _ (offset + displacement s val indices isFirst t) := by
  induction indices generalizing b isFirst t addr offset A with
  | nil => exact .pure before.fit ⟨trivial, A, before, fun val => by rw [displacement, Int.add_zero]⟩
  | cons v vs ih =>
    have others := fun x listed => looks x (List.mem_cons_of_mem v listed)
    -- what the index contributes is in the offset or in the address now
    have constant {t' : Ty} {k : Int} (inside : StepsInto s (v :: vs) isFirst t ↔ StepsInto s vs false t')
        (unfolded : ∀ val, displacement s val (v :: vs) isFirst t = k + displacement s val vs false t') :
        Tries s T why b (steps s look owner fields vs false t' addr (offset + k)) fun r c =>
          StepsInto s (v :: vs) isFirst t ∧
          ∃ A' : (ValueId → Nat) → BitVec s.layout.pointerBits, Yields s T extra A' r.1 c ∧ ∀ val,
            A' val + BitVec.ofInt _ r.2 = A val + BitVec.ofInt _ (offset + displacement s val (v :: vs) isFirst t) := by
      refine (ih others (fun no => outside (no ∘ inside.1)) before).imp fun r c h => ?_
      obtain ⟨typed, A', yields, sum⟩ := h
      exact ⟨inside.2 typed, A', yields, fun val => by rw [sum, unfolded, Int.add_assoc]⟩
    unfold steps
    refine .read before.fit ((stride_ends owner t isFirst v).blame fun e c h => ⟨h.1, ?_⟩) fun step into => ?_
    · refine outside (fun typed => ?_) e
      rw [StepsInto, h.2.2] at typed
      exact typed.2
    have inside (number : ∃ n, HasBits s v n ∧ 0 < n) : StepsInto s (v :: vs) isFirst t ↔ StepsInto s vs false step.type :=
      (stepsInto_cons into).trans (and_iff_right number)
    cases step with
    | field o t' =>
      obtain ⟨i, read⟩ := constIndex_of_field into
      exact constant (inside (hasBits_of_constIndex read)) fun val => by rw [displacement, into]
    | elements e =>
      rcases read : constIndex s.module v with fault | _ | i
      · refine Ends.throw ⟨⟨_, before.fit⟩, outside (fun typed => ?_) fault⟩
        obtain ⟨⟨n, has, some⟩, -⟩ := typed
        obtain ⟨i, ok⟩ := constIndex_ok has some
        cases read.symm.trans ok
      · refine .read before.fit (lift_read rfl) ?_
        rintro _ rfl
        obtain ⟨looked, n, has, some⟩ := looks v List.mem_cons_self (isComputed_eq s.module read)
        have inside : StepsInto s (v :: vs) isFirst t ↔ StepsInto s vs false e := inside ⟨n, has, some⟩
        refine scaled_fit positive short long looked has before fun r c yields => ?_
        refine (ih others (fun no => outside (no ∘ inside.1)) yields).imp fun r' d h => ?_
        obtain ⟨typed, A', yields', sum⟩ := h
        refine ⟨inside.2 typed, A', yields', fun val => ?_⟩
        have number : indexValue s val v = (BitVec.ofNat n (val v)).toInt := by
          obtain rfl := has.bits_eq
          rw [indexValue, read]
          rfl
        rw [sum, displacement, into]
        dsimp only
        rw [number, BitVec.add_assoc, ← BitVec.ofInt_add]
        congr 2
        omega
      · refine .read before.fit (lift_read rfl) ?_
        rintro _ rfl
        refine constant (inside (hasBits_of_constIndex read)) fun val => ?_
        rw [displacement, into]
        dsimp only
        rw [indexValue, read]

omit short in
/-- The constant offset of an address is added at the end, if there is one. -/
lemma offset_fit (before : Yields s T extra A addr b) :
    Tries s T why b (if offset = 0 then pure addr
        else do
          s.logEntry (fields.put "offset" (.text (toString offset))) "constant pointer offset"
          let k ← build (Formula.const s.layout.pointerBits offset)
          let sum ← build (Formula.arith .add addr k)
          build (Formula.release [addr, k])
          pure sum) (Yields s T extra fun val => A val + BitVec.ofInt _ offset) := by
  split
  · rename_i none
    refine .pure before.fit (before.congr fun val => ?_)
    rw [none, show BitVec.ofInt s.layout.pointerBits 0 = 0#_ from rfl, BitVec.add_zero]
  · refine .bind (before.fit.log _ _) fun _ c₁ step₁ fit => ?_
    refine .bind (fit.const offset positive long) fun k c₂ step₂ made => ?_
    have base : c₂.Owns (k ::ₘ addr ::ₘ extra) addr A := before.owns (step_discipline.trans step₁ step₂) (by simp)
    refine .bind (made.fit.binary (.arith .add) base made.here) fun sum c₃ _ added => ?_
    have split : sum ::ₘ k ::ₘ addr ::ₘ extra = ↑[addr, k] + (sum ::ₘ extra) := by
      simp only [← Multiset.cons_coe, Multiset.coe_nil, ← Multiset.singleton_add]
      abel
    refine .bind (added.fit.release split) fun _ c₄ step₄ fit => .pure fit ?_
    exact ⟨fit, added.means.of_grows added.fit.toKept step₄.grows⟩

lemma address_tries {elem : Ty} {base : ValueId} {indices : List ValueId} (pointer : HasBits s base s.layout.pointerBits)
    (unnamed : s.module.identText v = none → why .unprintable) (outside : ¬ StepsInto s indices true elem → ∀ e, why e)
    (looksBase : LooksUp s T why look base)
    (looks : ∀ x ∈ indices, isComputed s.module x → LooksUp s T why look x ∧ ∃ n, HasBits s x n ∧ 0 < n)
    (fit : Fit s T b extra) :
    Tries s T why b (address s look v elem base indices) fun r c => StepsInto s indices true elem ∧ Yields s T extra
      (fun val => BitVec.ofInt s.layout.pointerBits (val base + displacement s val indices true elem)) r c := by
  unfold address
  refine .read fit (ident_read unnamed) fun name _ => ?_
  refine .bind (looksBase b extra fit) fun f c _ ⟨fit, known⟩ => ?_
  refine .bind (fit.retain (fit.owns known pointer)) fun addr c₁ _ ⟨_, copied⟩ => ?_
  refine .bind (steps_fit positive short long looks outside copied) fun walked c₂ _ h => ?_
  obtain ⟨addr, offset⟩ := walked
  obtain ⟨typed, A, walked, sum⟩ := h
  refine (offset_fit positive long walked).imp fun r c₃ yields => ⟨typed, yields.congr fun val => ?_⟩
  rw [sum, Int.zero_add, BitVec.ofInt_add, BitVec.ofInt_natCast]

end Address

lemma StepsInto.number {indices : List ValueId} {isFirst : Bool} {t : Ty} (typed : StepsInto s indices isFirst t) :
    ∀ x ∈ indices, ∃ n, HasBits s x n ∧ 0 < n := by
  induction indices generalizing isFirst t with
  | nil => nofun
  | cons v vs ih =>
    refine List.forall_mem_cons.2 ⟨typed.1, ?_⟩
    have later := typed.2
    split at later
    · exact ih later
    · exact ih later
    · exact later.elim

lemma address_fit {elem : Ty} {base : ValueId} {indices : List ValueId} (typed : Typed s v w fd)
    (own : ∀ {e}, Reason s v e → why e) (named : isLiteral fd = false) (asked : AddressTyped s w elem base indices)
    (looks : ∀ x ∈ base :: indices.filter (isComputed s.module), LooksUp s T why look x) (fit : Fit s T b extra) :
    Tries s T why b (address s look v elem base indices) (Yields s T extra fun val =>
      BitVec.ofInt s.layout.pointerBits (val base + displacement s val indices true elem)) := by
  obtain ⟨rfl, hasBase, inside⟩ := asked
  refine (address_tries typed.positive typed.short (fun long => own (.wide (typed.bits.bits_eq.symm ▸ long))) hasBase
    (fun absent => own (.unwritten typed.found named absent)) (fun no => absurd inside no) (looks base List.mem_cons_self)
    (fun x listed computed => ⟨?_, inside.number x listed⟩) fit).imp fun _ _ h => h.2
  exact looks x (List.mem_cons_of_mem base (List.mem_filter.2 ⟨listed, computed⟩))

lemma select_fit {cond : ValueId} {flags : List String} (looksCond : LooksUp s T why look cond)
    (left : LooksUp s T why look x) (right : LooksUp s T why look y) (hasCond : HasBits s cond 1) (hasLeft : HasBits s x n)
    (hasRight : HasBits s y n) (fit : Fit s T b extra) :
    Tries s T why b (ofInst s look v (.select flags cond x y)) (Yields s T extra fun val =>
      if BitVec.ofNat 1 (val cond) = 1 then BitVec.ofNat n (val x) else BitVec.ofNat n (val y)) := by
  unfold ofInst
  refine .bind (looksCond b extra fit) fun k c _ ⟨fit, known⟩ => ?_
  refine .bind (left c extra fit) fun f d step₁ ⟨fit, known₁⟩ => ?_
  refine .bind (right d extra fit) fun g e step₂ ⟨fit, known₂⟩ => ?_
  have owns := fit.owns (step₂.grows.formula (step₁.grows.formula known)) hasCond
  have owns₁ := fit.owns (step₂.grows.formula known₁) hasLeft
  have owns₂ := fit.owns known₂ hasRight
  refine fit.build (Formula.ite_gives fit.stocked owns.has owns₁.has owns₂.has).granted fun assign val agrees => ?_
  rw [owns.means.word agrees, owns₁.means.word agrees, owns₂.means.word agrees]

lemma Typed.meaning?_inst {name : IR.Name} {t : Ty} {i : Inst ValueId} {trail : List (IR.Piece ValueId)}
    (typed : Typed s v w (.inst name t i trail)) (val : ValueId → Nat) :
    meaning? s val v = instMeaning? s val w i ∧ demands s v = instDemands s i := by
  unfold meaning? demands
  rw [typed.bits, typed.found]
  exact ⟨rfl, rfl⟩

lemma ofInst_fit {name : IR.Name} {t : Ty} {i : Inst ValueId} {trail : List (IR.Piece ValueId)}
    (typed : Typed s v w (.inst name t i trail)) (own : ∀ {e}, Reason s v e → why e)
    (looks : ∀ x ∈ instDemands s i, LooksUp s T why look x) (fit : Fit s T b extra) :
    Tries s T why b (ofInst s look v i) (Expresses s T extra v) := by
  have means (val : ValueId → Nat) := (typed.meaning?_inst val).1
  have asked : InstTyped s w i := typed.typed
  have positive := typed.positive
  have short := typed.short
  have long : widthLimit ≤ w → why .constTooWide := fun long => own (.wide (typed.bits.bits_eq.symm ▸ long))
  have opaque_ {b : Bench} (free_ : instMeaning? s (fun _ => 0) w i = none) (fit : Fit s T b extra) :
      Tries s T why b (free s v) (Expresses s T extra v) := free_fit typed own rfl ((means _).trans free_) fit
  cases i with
  | arith op flags x y =>
    exact (binary_fit (.arith op) (looks x (by simp [instDemands])) (looks y (by simp [instDemands])) asked.1 asked.2
      fit).imp fun r c yields => yields.expresses typed.bits fun val _ => means val
  | icmp pred x y =>
    obtain ⟨⟨op, rfl⟩, rfl, n, hasLeft, hasRight⟩ := asked
    obtain rfl := hasLeft.bits_eq
    refine (binary_fit (.compare op) (looks x (by simp [instDemands])) (looks y (by simp [instDemands])) hasLeft
      hasRight fit).imp fun r c yields => yields.expresses typed.bits fun val _ => ?_
    rw [means, Formula.Binary.toNat_smt_compare]
    rfl
  | gep inbounds elem base indices =>
    exact (address_fit typed own rfl asked looks fit).imp fun r c yields =>
      yields.expresses (asked.1 ▸ typed.bits) fun val _ => means val
  | cast op x target =>
    cases op with
    | trunc =>
      obtain ⟨wide, n, has, le⟩ := asked
      obtain rfl := has.bits_eq
      exact (trunc_fit (looks x (by simp [instDemands])) has le positive short wide fit).imp fun r c yields =>
        yields.expresses typed.bits fun val _ => means val
    | zext | sext =>
      obtain ⟨wide, n, has, le⟩ := asked
      obtain rfl := has.bits_eq
      exact (extend_fit _ (looks x (by simp [instDemands])) has le short long wide fit).imp fun r c yields =>
        yields.expresses typed.bits fun val _ => means val
    | ptrtoint | inttoptr =>
      obtain ⟨wide, n, has⟩ := asked
      obtain rfl := has.bits_eq
      exact (reinterpret_fit (looks x (by simp [instDemands])) has positive short long wide fit).imp fun r c yields =>
        yields.expresses typed.bits fun val _ => means val
    | bitcast =>
      unfold ofInst
      dsimp only
      rcases known : s.width? (s.module.typeOf x) with _ | n
      · exact opaque_ (by simp [instMeaning?, known]) fit
      · have has : HasBits s x n := known
        obtain rfl := asked n has
        refine .bind (looks x (by simp [instDemands, known]) b extra fit) fun f c _ h => ?_
        obtain ⟨fit, there⟩ := h
        refine (fit.retain (fit.owns there has)).imp fun r d h => h.2.expresses typed.bits fun val small => ?_
        have inside := small x
        rw [has.bits_eq] at inside
        rw [means, BitVec.toNat_ofNat, Nat.mod_eq_of_lt inside]
        simp [instMeaning?, known]
    | fptrunc | fpext | fptoui | fptosi | uitofp | sitofp | addrspacecast => exact opaque_ rfl fit
  | select flags cond x y =>
    obtain ⟨hasCond, hasLeft, hasRight⟩ := asked
    refine (select_fit (looks cond (by simp [instDemands])) (looks x (by simp [instDemands]))
      (looks y (by simp [instDemands])) hasCond hasLeft hasRight fit).imp fun r c yields =>
      yields.expresses typed.bits fun val small => ?_
    have word {z : ValueId} {n : Nat} (has : HasBits s z n) : (BitVec.ofNat n (val z)).toNat = val z := by
      have inside := small z
      rw [has.bits_eq] at inside
      rw [BitVec.toNat_ofNat, Nat.mod_eq_of_lt inside]
    have chosen : BitVec.ofNat 1 (val cond) = 1 ↔ val cond = 1 := by
      rw [← BitVec.toNat_inj, word hasCond]
      rfl
    rw [means, instMeaning?, apply_ite BitVec.toNat, word hasLeft, word hasRight]
    simp only [chosen]
  | extractValue x path =>
    unfold ofInst
    rcases written : s.module.lineText v with _ | line
    · exact Ends.throw ⟨⟨extra, fit⟩, own (.line typed.found rfl written)⟩
    · exact .bind (fit.log _ _) fun _ c _ fit => opaque_ rfl fit
  | phi | call | other => exact opaque_ rfl fit

lemma express_fit (typed : Typed s v w fd) (own : ∀ {e}, Reason s v e → why e)
    (looks : ∀ x ∈ demands s v, LooksUp s T why look x) (fit : Fit s T b extra) :
    Tries s T why b (express s look v) (Expresses s T extra v) := by
  have found := typed.found
  have positive := typed.positive
  have long : widthLimit ≤ w → why .constTooWide := fun long => own (.wide (typed.bits.bits_eq.symm ▸ long))
  have wide : s.width? (s.module.typeOf v) = some w := typed.bits
  unfold express
  rw [wide, found]
  cases fd with
  | inst name t i trail =>
    exact ofInst_fit typed own (fun x demanded => looks x ((typed.meaning?_inst fun _ => 0).2 ▸ demanded)) fit
  | const t k =>
    cases k with
    | int n =>
      have integer : s.module.resolve t = .int w := typed.typed
      dsimp only
      rw [integer]
      refine (fit.const n positive long).imp fun r c yields => yields.expresses typed.bits fun val _ => ?_
      simp [meaning?, wide, found, integer]
    | null =>
      obtain rfl : w = s.layout.pointerBits := typed.typed
      refine (fit.const 0 positive long).imp fun r c yields => yields.expresses typed.bits fun val _ => ?_
      simp [meaning?, wide, found]
    | gep inbounds elem base indices =>
      have asked : AddressTyped s w elem base (indices.map Prod.snd) := typed.typed
      have needs : demands s v = base :: (indices.map Prod.snd).filter (isComputed s.module) := by
        simp [demands, wide, found]
      rw [needs] at looks
      refine (address_fit typed own rfl asked looks fit).imp fun r c yields =>
        yields.expresses (asked.1 ▸ typed.bits) fun val _ => ?_
      simp only [meaning?, wide, found]
      rfl
    | undef | other => exact free_fit typed own rfl (by simp [IsFree, meaning?, wide, found]) fit
  | param | term | block | global | func | attributed =>
    exact free_fit typed own rfl (by simp [IsFree, meaning?, wide, found]) fit

end Express

/-! ## Looking up -/

lemma Expresses.enter (made : Expresses s T extra v f c) (operands : ∀ x ∈ demands s v, Known x c) (among : T v)
    (grounded : Grounded s v) (unknown : c.formula? v = none) : Fit s T (c.enter v f) extra := by
  obtain ⟨entries, open_⟩ := made.fit.open_
  have fit := made.fit
  have formula (x : ValueId) : (c.enter v f).formula? x = if x = v then some f else c.formula? x :=
    Bench.formula?_enter open_ v x f
  have grows : c.Grows (c.enter v f) := Bench.grows_enter open_ unknown
  have cached : (c.enter v f).cached = f :: c.cached := by
    simp [Bench.cached, Bench.enter, open_]
  -- a known value is the new one or was known
  have known_cases {x : ValueId} {h : Handle} (known : (c.enter v f).formula? x = some h) :
      x = v ∧ f = h ∨ c.formula? x = some h := by
    rw [formula] at known
    split at known
    · exact .inl ⟨‹_›, Option.some.inj known⟩
    · exact .inr known
  have meaning {x : ValueId} (operands : ∀ y ∈ demands s x, Known y c) (assign : Handle → Nat) :
      meaning? s ((c.enter v f).reading assign) x = meaning? s (c.reading assign) x := by
    refine meaning?_congr fun y demanded => ?_
    obtain ⟨g, there⟩ := operands y demanded
    exact grows.reading fit.toKept there assign
  refine ⟨fit.toSound.enter (fit.stocked.node (by simp)) grounded, ⟨⟨fit.wellFormed, ?_, ?_⟩, ?_⟩, fun {x h} known => ?_,
    fun {x h} known => ?_, fun {x h} known y demanded => ?_, fun {x h} known assign n means => ?_,
    fun {x h} known free assign => ?_, fun {x y h} known known' free free' => ?_⟩
  · refine fit.stocked.tame.mono fun g allowed => ?_
    show g ∈ (c.enter v f).cached
    rw [cached]
    exact List.mem_cons_of_mem f allowed
  · rw [Bench.owned_enter open_, Multiset.cons_add, ← Multiset.add_cons]
    exact fit.stocked.backed
  · exact fun g allowed => Multiset.mem_add.2 (.inl (Multiset.mem_add.2 (.inl allowed)))
  · obtain ⟨rfl, -⟩ | before := known_cases known
    · exact among
    · exact fit.within before
  · obtain ⟨rfl, rfl⟩ | before := known_cases known
    · exact made.width
    · exact fit.width before
  · obtain ⟨rfl, -⟩ | before := known_cases known
    · exact (operands y demanded).of_grows grows
    · exact (fit.operands before y demanded).of_grows grows
  · obtain ⟨rfl, rfl⟩ | before := known_cases known
    · exact made.value assign n (meaning operands assign ▸ means)
    · exact fit.value before assign n (meaning (fit.operands before) assign ▸ means)
  · obtain ⟨rfl, rfl⟩ | before := known_cases known
    · exact (made.free free).1 assign
    · exact fit.free before free assign
  · obtain ⟨rfl, rfl⟩ | before := known_cases known <;> obtain ⟨rfl, new⟩ | before' := known_cases known'
    · rfl
    · exact absurd rfl ((made.free free).2 before')
    · exact absurd new.symm ((made.free free').2 before)
    · exact fit.apart before before' free free'

lemma lookupFrom_fit (typing : Typing s T) {depth : Nat} (among : T v) (deep : Deep s depth v) :
    LooksUp s T (Cause s v) (lookupFrom s depth) v := by
  induction depth generalizing v with
  | zero => exact absurd deep.pos (lt_irrefl 0)
  | succ depth ih =>
    intro b extra fit
    unfold lookupFrom
    refine Ends.get_bind ?_
    rw [show b.values.bind (List.lookup v) = b.formula? v from rfl]
    rcases known : b.formula? v with _ | f
    · obtain ⟨w, d, typed⟩ := typing.typed among
      have looks : ∀ x ∈ demands s v, LooksUp s T (Cause s v) (lookupFrom s depth) x := by
        intro x demanded b extra fit
        have deeper := deep.next (typing.grounded among).not_needs demanded
        refine (ih (typing.operands among x demanded) deeper b extra fit).blame fun e c refused => ?_
        obtain ⟨left, y, needs, reason⟩ := refused
        exact ⟨left, y, .head demanded needs, reason⟩
      have tries : Tries s T (Cause s v) b _ _ := express_fit typed (fun reason => ⟨v, .refl, reason⟩) looks fit
      refine Ends.bind ((tries.and (expressFrom_follows v (show (soundBooks s).keeps b 0 from fit.toSound) known
        (lookupFrom_follows (soundBooks s) depth))).blame fun _ _ h => h.1) fun f c h => ?_
      obtain ⟨⟨-, made⟩, ⟨step, -⟩, ⟨node, operands⟩, grounded, unknown⟩ := h
      have entered := made.enter operands among grounded unknown
      obtain ⟨entries, open_⟩ := step.sound.open_
      refine Ends.get_bind ?_
      rw [open_]
      refine Ends.modify_bind (Ends.pure ?_)
      show Step s _ b (c.enter v f) ∧ Fit s T (c.enter v f) extra ∧ (c.enter v f).formula? v = some f
      exact ⟨⟨entered.toSound, step.grows.trans (Bench.grows_enter open_ unknown), step.paths, fun _ => .inr trivial⟩,
        entered, by rw [Bench.formula?_enter open_, if_pos rfl]⟩
    · exact Tries.pure fit ⟨fit, known⟩

lemma lookup_fit (typing : Typing s T) (among : T v) : LooksUp s T (Cause s v) (lookup s) v :=
  lookupFrom_fit typing among (.start (Nat.lt_succ_self _))

end Analysis

end Faultline
