/-
# Proofs.Analysis.Meaning — what a value is worth

`meaning? s val v` is the value of `v` by its definition, where `val` gives the
values of its operands: arithmetic and comparisons as SMT-LIB has them, conversions
and choices of words, and addresses as the base plus what the indices step over. A
free value has none: it may be worth anything.

`Proper s v` says that `v` is well typed: it has bits, its operands have the bits
its definition asks for and are proper themselves, and so on down to values that ask
for no operands.
-/
import Faultline.Proofs.Analysis.Demand

namespace Faultline.Analysis

open IR (Module ValueId Ty Def Inst)
open Formula (widthLimit widthRange)

variable {s : Setting} {val val' : ValueId → Nat} {v x y : ValueId} {w n : Nat} {t : Ty} {indices : List ValueId}

/-! ## Bits -/

/-- The value has a type of `w` bits. -/
def HasBits (s : Setting) (v : ValueId) (w : Nat) : Prop :=
  s.width? (s.module.typeOf v) = some w

def bits (s : Setting) (v : ValueId) : Nat :=
  (s.width? (s.module.typeOf v)).getD 0

lemma HasBits.bits_eq (has : HasBits s v w) : bits s v = w := by
  rw [bits, has]
  rfl

lemma HasBits.unique (has : HasBits s v w) (has' : HasBits s v n) : w = n :=
  Option.some.inj (has.symm.trans has')

def wordOf (s : Setting) (val : ValueId → Nat) (v : ValueId) : BitVec (bits s v) :=
  BitVec.ofNat (bits s v) (val v)

/-! ## Addresses -/

def indexValue (s : Setting) (val : ValueId → Nat) (v : ValueId) : Int :=
  match constIndex s.module v with
  | .ok (some i) => i
  | .ok none => (wordOf s val v).toInt
  | .error _ => 0

/-- The bytes that the indices step over. -/
def displacement (s : Setting) (val : ValueId → Nat) : List ValueId → Bool → Ty → Int
  | [], _, _ => 0
  | v :: vs, isFirst, t =>
    match stepInto s t isFirst v with
    | some (.field offset t) => offset + displacement s val vs false t
    | some (.elements e) => indexValue s val v * (s.extent e).alloc + displacement s val vs false e
    | none => 0

def addressOf (s : Setting) (val : ValueId → Nat) (elem : Ty) (base : ValueId) (indices : List ValueId) : Nat :=
  (BitVec.ofInt s.layout.pointerBits (val base + displacement s val indices true elem)).toNat

/-! ## Values -/

/-- The value of an instruction of `w` bits. -/
def instMeaning? (s : Setting) (val : ValueId → Nat) (w : Nat) : Inst ValueId → Option Nat
  | .arith op _ x y => some (op.smt (BitVec.ofNat w (val x)) (BitVec.ofNat w (val y))).toNat
  | .icmp (.known op) x y => some (op.smt (wordOf s val x) (BitVec.ofNat (bits s x) (val y))).toNat
  | .gep _ elem base indices => some (addressOf s val elem base indices)
  | .cast .trunc x _ | .cast .zext x _ => some ((wordOf s val x).setWidth w).toNat
  | .cast .sext x _ => some ((wordOf s val x).signExtend w).toNat
  | .cast .ptrtoint x _ | .cast .inttoptr x _ => some ((wordOf s val x).setWidth w).toNat
  | .cast .bitcast x _ => if (s.width? (s.module.typeOf x)).isSome then some (val x) else none
  | .select _ c x y => some (if val c = 1 then val x else val y)
  | _ => none

/-- The value of `v` by its definition. -/
def meaning? (s : Setting) (val : ValueId → Nat) (v : ValueId) : Option Nat :=
  match s.width? (s.module.typeOf v) with
  | none => none
  | some w =>
    match s.module.get? v with
    | some (.inst _ _ i _) => instMeaning? s val w i
    | some (.const t (.int n)) =>
      match s.module.resolve t with
      | .int bits => some (BitVec.ofInt bits n).toNat
      | _ => none
    | some (.const _ .null) => some 0
    | some (.const _ (.gep _ elem base indices)) => some (addressOf s val elem base (indices.map Prod.snd))
    | _ => none

/-- The definition says nothing about the value. -/
def IsFree (s : Setting) (v : ValueId) : Prop :=
  meaning? s (fun _ => 0) v = none

lemma constIndex_of_int {m : Module} {n : Int} (found : m.get? v = some (.const t (.int n)))
    (type : m.resolve t = .int w) (positive : 0 < w) : constIndex m v = .ok (some (BitVec.ofInt w n).toInt) := by
  unfold constIndex
  rw [found]
  dsimp only
  rw [type, ← Formula.signed_toNat, ← Formula.truncate_eq]
  cases w with
  | zero => cases positive
  | succ w => rfl

/-! ### Only what is demanded counts -/

lemma indexValue_congr (same : isComputed s.module v = true → val v = val' v) :
    indexValue s val v = indexValue s val' v := by
  unfold indexValue
  rcases read : constIndex s.module v with e | _ | i
  · rfl
  · unfold wordOf
    rw [same (isComputed_eq s.module read)]
  · rfl

lemma displacement_congr
    (same : ∀ v ∈ indices, isComputed s.module v = true → val v = val' v) (isFirst : Bool) (t : Ty) :
    displacement s val indices isFirst t = displacement s val' indices isFirst t := by
  induction indices generalizing isFirst t with
  | nil => rfl
  | cons v vs ih =>
    have later := ih fun x listed => same x (List.mem_cons_of_mem v listed)
    unfold displacement
    rcases stepInto s t isFirst v with _ | ⟨offset, t⟩ | e
    · rfl
    · dsimp only
      rw [later false t]
    · dsimp only
      rw [indexValue_congr (same v List.mem_cons_self), later false e]

lemma addressOf_congr {elem : Ty} {base : ValueId}
    (same : ∀ x ∈ base :: indices.filter (isComputed s.module), val x = val' x) :
    addressOf s val elem base indices = addressOf s val' elem base indices := by
  unfold addressOf
  rw [same base List.mem_cons_self, displacement_congr fun x listed computed =>
    same x (List.mem_cons_of_mem base (List.mem_filter.2 ⟨listed, computed⟩))]

lemma instMeaning?_congr {i : Inst ValueId} (same : ∀ x ∈ instDemands s i, val x = val' x) (w : Nat) :
    instMeaning? s val w i = instMeaning? s val' w i := by
  cases i with
  | arith op flags x y =>
    simp only [instMeaning?, same x (by simp [instDemands]), same y (by simp [instDemands])]
  | icmp pred x y =>
    cases pred with
    | known op => simp only [instMeaning?, wordOf, same x (by simp [instDemands]), same y (by simp [instDemands])]
    | unknown n => rfl
  | gep inbounds elem base indices => exact congrArg some (addressOf_congr same)
  | cast op x target =>
    cases op with
    | trunc | zext | sext | ptrtoint | inttoptr =>
      simp only [instMeaning?, wordOf, same x (by simp [instDemands])]
    | bitcast =>
      unfold instMeaning?
      dsimp only
      split
      · rename_i analysed
        rw [same x (by simp [instDemands, analysed])]
      · rfl
    | fptrunc | fpext | fptoui | fptosi | uitofp | sitofp | addrspacecast => rfl
  | select flags c x y =>
    simp only [instMeaning?, same c (by simp [instDemands]), same x (by simp [instDemands]),
      same y (by simp [instDemands])]
  | phi | call | extractValue | other => rfl

lemma meaning?_congr (same : ∀ x ∈ demands s v, val x = val' x) : meaning? s val v = meaning? s val' v := by
  unfold meaning?
  unfold demands at same
  revert same
  rcases s.width? (s.module.typeOf v) with _ | w
  · exact fun _ => rfl
  · dsimp only [Option.isSome_some]
    rw [if_pos rfl]
    rcases s.module.get? v with _ | ⟨_ | _ | _ | _ | ⟨t, k⟩ | _ | _ | _⟩
    case some.inst => exact fun same => instMeaning?_congr same w
    case some.const =>
      cases k with
      | gep inbounds elem base indices => exact fun same => congrArg some (addressOf_congr same)
      | int | null | undef | other => exact fun _ => rfl
    all_goals exact fun _ => rfl

/-- Whether a value is free does not hang on the values of others. -/
lemma meaning?_eq_none (val val' : ValueId → Nat) : meaning? s val v = none ↔ meaning? s val' v = none := by
  have inst (w : Nat) (i : Inst ValueId) : instMeaning? s val w i = none ↔ instMeaning? s val' w i = none := by
    cases i with
    | icmp pred x y => cases pred <;> simp [instMeaning?]
    | cast op x target => cases op <;> simp [instMeaning?]
    | arith | gep | select | phi | call | extractValue | other => simp [instMeaning?]
  unfold meaning?
  rcases s.width? (s.module.typeOf v) with _ | w
  · exact Iff.rfl
  · rcases s.module.get? v with _ | ⟨_ | ⟨name, t, i, trail⟩ | _ | _ | ⟨t, k⟩ | _ | _ | _⟩
    case some.inst => exact inst w i
    case some.const => cases k <;> simp
    all_goals exact Iff.rfl

lemma IsFree.meaning? (free : IsFree s v) (val : ValueId → Nat) : meaning? s val v = none :=
  (meaning?_eq_none _ val).1 free

/-! ## Types -/

/-- Every index is a number, and steps into a type that has such a part. -/
def StepsInto (s : Setting) : List ValueId → Bool → Ty → Prop
  | [], _, _ => True
  | v :: vs, isFirst, t =>
    (∃ n, HasBits s v n ∧ 0 < n) ∧
      match stepInto s t isFirst v with
      | some (.field _ t) => StepsInto s vs false t
      | some (.elements e) => StepsInto s vs false e
      | none => False

def Stride.type : Stride → Ty
  | .field _ t | .elements t => t

lemma stepsInto_cons {vs : List ValueId} {isFirst : Bool} {step : Stride}
    (into : stepInto s t isFirst v = some step) :
    StepsInto s (v :: vs) isFirst t ↔ (∃ n, HasBits s v n ∧ 0 < n) ∧ StepsInto s vs false step.type := by
  rw [StepsInto, into]
  cases step <;> rfl

/-- An address of `w` bits. -/
def AddressTyped (s : Setting) (w : Nat) (elem : Ty) (base : ValueId) (indices : List ValueId) : Prop :=
  w = s.layout.pointerBits ∧ HasBits s base w ∧ StepsInto s indices true elem

/-- What an instruction of `w` bits asks of its operands. -/
def InstTyped (s : Setting) (w : Nat) : Inst ValueId → Prop
  | .arith _ _ x y => HasBits s x w ∧ HasBits s y w
  | .icmp pred x y => (∃ op, pred = .known op) ∧ w = 1 ∧ ∃ n, HasBits s x n ∧ HasBits s y n
  | .gep _ elem base indices => AddressTyped s w elem base indices
  | .cast .trunc x target => s.width? target = some w ∧ ∃ n, HasBits s x n ∧ w ≤ n
  | .cast .zext x target | .cast .sext x target => s.width? target = some w ∧ ∃ n, HasBits s x n ∧ n ≤ w
  | .cast .ptrtoint x target | .cast .inttoptr x target => s.width? target = some w ∧ ∃ n, HasBits s x n
  | .cast .bitcast x _ => ∀ n, HasBits s x n → n = w
  | .select _ c x y => HasBits s c 1 ∧ HasBits s x w ∧ HasBits s y w
  | _ => True

/-- What a value of `w` bits asks of its definition. -/
def DefTyped (s : Setting) (w : Nat) : Def ValueId → Prop
  | .inst _ _ i _ => InstTyped s w i
  | .const t (.int _) => s.module.resolve t = .int w
  | .const _ .null => w = s.layout.pointerBits
  | .const _ (.gep _ elem base indices) => AddressTyped s w elem base (indices.map Prod.snd)
  | _ => True

def isLiteral : Def ValueId → Bool
  | .const _ (.int _) => true
  | _ => false

/-- An instruction of which the whole line is written. -/
def isExtraction : Def ValueId → Bool
  | .inst _ _ (.extractValue _ _) _ => true
  | _ => false

/-- What is asked of a value itself. -/
structure Sane (s : Setting) (v : ValueId) (w : Nat) (d : Def ValueId) : Prop where
  found : s.module.get? v = some d
  bits : HasBits s v w
  positive : 0 < w
  narrow : w + w < widthLimit
  typed : DefTyped s w d
  written : isLiteral d = false → (s.module.identText v).isSome
  line : isExtraction d → (s.module.lineText v).isSome

/-- The value and all it demands are well typed. -/
inductive Proper (s : Setting) : ValueId → Prop where
  | intro {v : ValueId} {w : Nat} {d : Def ValueId} (sane : Sane s v w d)
      (operands : ∀ x ∈ demands s v, Proper s x) : Proper s v

lemma Proper.grounded (proper : Proper s v) : Grounded s v := by
  induction proper with
  | intro _ _ ih => exact .intro _ ih

lemma Proper.sane (proper : Proper s v) : ∃ w d, Sane s v w d ∧ ∀ x ∈ demands s v, Proper s x := by
  cases proper with
  | intro sane operands => exact ⟨_, _, sane, operands⟩

lemma Proper.hasBits (proper : Proper s v) : HasBits s v (bits s v) := by
  obtain ⟨w, d, sane, -⟩ := proper.sane
  exact sane.bits.bits_eq ▸ sane.bits

/-! ### Families of typed values -/

/-- A value of `w` bits whose operands have the bits that its definition asks for. -/
structure Typed (s : Setting) (v : ValueId) (w : Nat) (d : Def ValueId) : Prop where
  found : s.module.get? v = some d
  bits : HasBits s v w
  positive : 0 < w
  short : w < widthRange
  typed : DefTyped s w d

/-- Values that are typed together with all they demand, and of which none demands itself in the end. -/
structure Typing (s : Setting) (T : ValueId → Prop) : Prop where
  typed : ∀ {v}, T v → ∃ w d, Typed s v w d
  operands : ∀ {v}, T v → ∀ x ∈ demands s v, T x
  acyclic : ∀ {v}, T v → ¬ Relation.TransGen (fun v x => x ∈ demands s v) v v

/-- Why a typed value may have no formula: a constant of its bits cannot be stored, or a text that bears its name
cannot be written. -/
inductive Reason (s : Setting) (v : ValueId) : Fault → Prop where
  | wide (long : widthLimit ≤ bits s v) : Reason s v .constTooWide
  | unwritten {d : Def ValueId} (found : s.module.get? v = some d) (named : isLiteral d = false)
      (absent : s.module.identText v = none) : Reason s v .unprintable
  | line {d : Def ValueId} (found : s.module.get? v = some d) (extraction : isExtraction d)
      (absent : s.module.lineText v = none) : Reason s v .unprintable

/-- A reason of the value, or of one that it needs. -/
def Cause (s : Setting) (v : ValueId) (e : Fault) : Prop :=
  ∃ x, Needs s v x ∧ Reason s x e

namespace Typing

variable {T : ValueId → Prop}

lemma hasBits (typing : Typing s T) (among : T v) : HasBits s v (bits s v) := by
  obtain ⟨w, d, typed⟩ := typing.typed among
  exact typed.bits.bits_eq ▸ typed.bits

lemma needs (typing : Typing s T) (among : T v) (needs : Needs s v x) : T x := by
  induction needs with
  | refl => exact among
  | tail _ demanded ih => exact typing.operands ih _ demanded

lemma grounded (typing : Typing s T) (among : T v) : Grounded s v :=
  grounded_iff.2 fun _ needs y demanded back =>
    typing.acyclic (typing.needs among needs) (Relation.TransGen.head'_iff.2 ⟨y, demanded, back⟩)

end Typing

lemma Sane.toTyped {d : Def ValueId} (sane : Sane s v w d) : Typed s v w d where
  found := sane.found
  bits := sane.bits
  positive := sane.positive
  short := by
    have small : widthLimit < widthRange := by decide
    have := sane.narrow
    omega
  typed := sane.typed

lemma proper_typing (s : Setting) : Typing s (Proper s) where
  typed := fun proper => by
    obtain ⟨w, d, sane, -⟩ := proper.sane
    exact ⟨w, d, sane.toTyped⟩
  operands := fun proper => by
    obtain ⟨w, d, -, operands⟩ := proper.sane
    exact operands
  acyclic := fun {v} proper cycle => by
    obtain ⟨x, demanded, needs⟩ := Relation.TransGen.head'_iff.1 cycle
    exact proper.grounded.not_needs x demanded needs

lemma Proper.not_cause {e : Fault} (proper : Proper s v) : ¬ Cause s v e := by
  rintro ⟨x, needs, reason⟩
  obtain ⟨w, d, sane, -⟩ := ((proper_typing s).needs proper needs).sane
  cases reason with
  | wide long =>
    rw [sane.bits.bits_eq] at long
    have := sane.narrow
    omega
  | unwritten found named absent =>
    cases sane.found.symm.trans found
    have written := sane.written named
    rw [absent] at written
    cases written
  | line found extraction absent =>
    cases sane.found.symm.trans found
    have written := sane.line extraction
    rw [absent] at written
    cases written

/-! ## Extents -/

lemma inline_of_resolve {defs : IR.TypeDefs} {fuel : Nat} {t' : Ty} (resolved : Ty.resolveFrom defs fuel t = t')
    (scalar : (∃ n, t' = .int n) ∨ ∃ e k, t' = .pointer e k) : Ty.inline defs fuel t = t' := by
  induction fuel generalizing t with
  | zero =>
    have same : t = t' := by
      cases t <;> exact resolved
    subst same
    rcases scalar with ⟨n, rfl⟩ | ⟨e, k, rfl⟩ <;> rw [Ty.inline]
    all_goals simp
  | succ fuel ih =>
    by_cases name : ∃ name, t = .named name
    · obtain ⟨name, rfl⟩ := name
      unfold Ty.resolveFrom at resolved
      rw [Ty.inline]
      revert resolved
      rcases defs.lookup name with _ | next
      · rintro rfl
        rcases scalar with ⟨n, ⟨⟩⟩ | ⟨e, k, ⟨⟩⟩
      · exact ih
    · have same : t = t' := by
        cases t with
        | named name' => exact absurd ⟨name', rfl⟩ name
        | _ => exact resolved
      subst same
      rcases scalar with ⟨n, rfl⟩ | ⟨e, k, rfl⟩ <;> rw [Ty.inline]
      all_goals simp

lemma extent_bits (has : s.width? t = some w) : (s.extent t).bits = w := by
  unfold Setting.width? at has
  unfold Setting.extent Ty.closed
  split at has
  · rename_i n resolved
    rw [inline_of_resolve resolved (.inl ⟨n, rfl⟩), Layout.extent]
    exact Option.some.inj has
  · rename_i e k resolved
    rw [inline_of_resolve resolved (.inr ⟨e, k, rfl⟩), Layout.extent]
    exact Option.some.inj has
  · cases has

lemma hasBits_of_constIndex {i : Int} (read : constIndex s.module v = .ok (some i)) : ∃ n, HasBits s v n ∧ 0 < n := by
  unfold constIndex at read
  split at read
  · rename_i t k found
    split at read
    · cases read
    · rename_i n some resolved
      refine ⟨n, ?_, Nat.pos_of_ne_zero fun none => some none⟩
      simp only [HasBits, Module.typeOf, found, Module.typeOf.plain, Setting.width?, resolved]
    · cases read
  · cases read

lemma constIndex_ok {n : Nat} (has : HasBits s v n) (positive : 0 < n) : ∃ i, constIndex s.module v = .ok i := by
  unfold constIndex
  unfold HasBits Module.typeOf at has
  split
  · rename_i t k found
    rw [found] at has
    split
    · rename_i zero
      simp only [Module.typeOf.plain, Setting.width?, zero, Option.some.injEq] at has
      omega
    · exact ⟨_, rfl⟩
    · exact ⟨_, rfl⟩
  · exact ⟨_, rfl⟩

end Faultline.Analysis
