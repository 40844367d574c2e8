/-
# Proofs.Analysis.Mirror — values mean the same in a module that is alike

A setting mirrors another one if its module is alike and its layout the same. What is
proper in the one is proper in the other (`Mirrors.proper`) and demands and means the
same there (`Mirrors.sane`). So the values that hang together in the one do so in the
other, as far as they are proper (`Mirrors.consistent`).
-/
import Faultline.Proofs.Analysis.Environment
import Faultline.Proofs.Instrument.Written

namespace Faultline.Analysis

open IR (Module ValueId Ty Def Inst)

variable {s s' : Setting} {val : ValueId → Nat} {v x : ValueId} {w : Nat} {d : Def ValueId} {i : Inst ValueId}
  {indices : List ValueId} {t : Ty} {isFirst : Bool}

lemma HasBits.lt_size (has : HasBits s v w) : v < s.module.defs.size := by
  by_contra outside
  have missing : s.module.get? v = none := Array.getElem?_eq_none (Nat.le_of_not_lt outside)
  unfold HasBits Module.typeOf at has
  rw [missing] at has
  cases has

lemma StepsInto.lt_size (typed : StepsInto s indices isFirst t) : ∀ x ∈ indices, x < s.module.defs.size := by
  induction indices generalizing isFirst t with
  | nil => simp
  | cons v vs ih =>
    obtain ⟨⟨n, has, -⟩, inside⟩ := typed
    refine List.forall_mem_cons.2 ⟨has.lt_size, ?_⟩
    split at inside
    · exact ih inside
    · exact ih inside
    · exact inside.elim

lemma isLiteral_setName (d : Def ValueId) (name : IR.Name) : isLiteral (d.setName name) = isLiteral d := by
  cases d <;> rfl

lemma isExtraction_setName (d : Def ValueId) (name : IR.Name) : isExtraction (d.setName name) = isExtraction d := by
  cases d with
  | inst n t i trail => cases i <;> rfl
  | _ => rfl

structure Mirrors (s s' : Setting) : Prop where
  alike : s.module.Alike s'.module
  closed : s.module.Closed
  layout : s'.layout = s.layout

namespace Mirrors

variable (mirrors : Mirrors s s')

include mirrors

/-! ## Types and addresses -/

lemma width? (t : Ty) : s'.width? t = s.width? t := by
  unfold Setting.width?
  rw [mirrors.alike.resolve, mirrors.layout]

lemma extent (t : Ty) : s'.extent t = s.extent t := by
  unfold Setting.extent
  rw [mirrors.alike.types, mirrors.layout]

lemma typeOf (inside : v < s.module.defs.size) : s'.module.typeOf v = s.module.typeOf v :=
  mirrors.alike.typeOf_eq mirrors.closed inside

lemma hasBits_iff (inside : v < s.module.defs.size) : HasBits s' v w ↔ HasBits s v w := by
  unfold HasBits
  rw [mirrors.typeOf inside, mirrors.width?]

lemma hasBits (has : HasBits s v w) : HasBits s' v w :=
  (mirrors.hasBits_iff has.lt_size).2 has

lemma bits_eq (inside : v < s.module.defs.size) : bits s' v = bits s v := by
  unfold bits
  rw [mirrors.typeOf inside, mirrors.width?]

lemma apply_wordOf (inside : v < s.module.defs.size) {α : Type} (f : {w : Nat} → BitVec w → α) :
    f (wordOf s' val v) = f (wordOf s val v) := by
  unfold wordOf
  rw [mirrors.bits_eq inside]

lemma constIndex (inside : v < s.module.defs.size) : constIndex s'.module v = constIndex s.module v :=
  Instrument.Alike.constIndex_eq mirrors.alike inside

lemma filter_isComputed (inside : ∀ x ∈ indices, x < s.module.defs.size) :
    indices.filter (isComputed s'.module) = indices.filter (isComputed s.module) := by
  refine List.filter_congr fun x listed => ?_
  unfold isComputed
  rw [mirrors.constIndex (inside x listed)]

lemma stepInto (inside : v < s.module.defs.size) (t : Ty) (isFirst : Bool) :
    stepInto s' t isFirst v = stepInto s t isFirst v := by
  unfold Analysis.stepInto
  rw [mirrors.alike.resolve, mirrors.constIndex inside, mirrors.layout, mirrors.alike.types]

lemma indexValue (inside : v < s.module.defs.size) : indexValue s' val v = indexValue s val v := by
  unfold Analysis.indexValue
  rw [mirrors.constIndex inside, mirrors.apply_wordOf inside BitVec.toInt]

lemma displacement (inside : ∀ x ∈ indices, x < s.module.defs.size) (isFirst : Bool) (t : Ty) :
    displacement s' val indices isFirst t = displacement s val indices isFirst t := by
  induction indices generalizing isFirst t with
  | nil => rfl
  | cons v vs ih =>
    obtain ⟨here, later⟩ := List.forall_mem_cons.1 inside
    unfold Analysis.displacement
    rw [mirrors.stepInto here]
    rcases Analysis.stepInto s t isFirst v with _ | ⟨offset, t⟩ | e
    · rfl
    · dsimp only
      rw [ih later]
    · dsimp only
      rw [ih later, mirrors.indexValue here, mirrors.extent]

lemma stepsInto (typed : StepsInto s indices isFirst t) : StepsInto s' indices isFirst t := by
  induction indices generalizing isFirst t with
  | nil => trivial
  | cons v vs ih =>
    obtain ⟨⟨n, has, positive⟩, inside⟩ := typed
    refine ⟨⟨n, mirrors.hasBits has, positive⟩, ?_⟩
    rw [mirrors.stepInto has.lt_size]
    rcases into : Analysis.stepInto s t isFirst v with _ | ⟨offset, t⟩ | e <;> rw [into] at inside
    · exact inside
    · exact ih inside
    · exact ih inside

lemma addressTyped {elem : Ty} {base : ValueId} (typed : AddressTyped s w elem base indices) :
    AddressTyped s' w elem base indices :=
  ⟨typed.1.trans (congrArg Layout.pointerBits mirrors.layout.symm), mirrors.hasBits typed.2.1, mirrors.stepsInto typed.2.2⟩

lemma addressOf (inside : ∀ x ∈ indices, x < s.module.defs.size) (elem : Ty) (base : ValueId) :
    addressOf s' val elem base indices = addressOf s val elem base indices := by
  unfold Analysis.addressOf
  rw [mirrors.layout, mirrors.displacement inside]

/-! ## Values -/

lemma instTyped (inside : ∀ x ∈ i.operands, x < s.module.defs.size) (typed : InstTyped s w i) :
    InstTyped s' w i := by
  have widths := mirrors.width?
  cases i with
  | arith op flags x y => exact ⟨mirrors.hasBits typed.1, mirrors.hasBits typed.2⟩
  | icmp pred x y =>
    obtain ⟨known, one, n, left, right⟩ := typed
    exact ⟨known, one, n, mirrors.hasBits left, mirrors.hasBits right⟩
  | gep inbounds elem base indices => exact mirrors.addressTyped typed
  | cast op x target =>
    cases op with
    | trunc | zext | sext =>
      obtain ⟨wide, n, has, le⟩ := typed
      exact ⟨(widths target).trans wide, n, mirrors.hasBits has, le⟩
    | ptrtoint | inttoptr =>
      obtain ⟨wide, n, has⟩ := typed
      exact ⟨(widths target).trans wide, n, mirrors.hasBits has⟩
    | bitcast => exact fun n has => typed n ((mirrors.hasBits_iff (inside x (by simp [Inst.operands]))).1 has)
    | fptrunc | fpext | fptoui | fptosi | uitofp | sitofp | addrspacecast => trivial
  | select flags c x y => exact ⟨mirrors.hasBits typed.1, mirrors.hasBits typed.2.1, mirrors.hasBits typed.2.2⟩
  | phi | call | extractValue | other => trivial

lemma instDemands (inside : ∀ x ∈ i.operands, x < s.module.defs.size) : instDemands s' i = instDemands s i := by
  cases i with
  | icmp pred x y => cases pred <;> rfl
  | gep inbounds elem base indices =>
    unfold Analysis.instDemands
    dsimp only
    rw [mirrors.filter_isComputed fun x listed => inside x (List.mem_cons_of_mem base listed)]
  | cast op x target =>
    cases op with
    | bitcast =>
      unfold Analysis.instDemands
      dsimp only
      rw [mirrors.typeOf (inside x (by simp [Inst.operands])), mirrors.width?]
    | _ => rfl
  | arith | select | phi | call | extractValue | other => rfl

lemma instMeaning? (inside : ∀ x ∈ i.operands, x < s.module.defs.size) :
    instMeaning? s' val w i = instMeaning? s val w i := by
  cases i with
  | icmp pred x y =>
    cases pred with
    | known op =>
      have here : x < s.module.defs.size := inside x (by simp [Inst.operands])
      unfold Analysis.instMeaning? wordOf
      dsimp only
      rw [mirrors.bits_eq here]
    | unknown n => rfl
  | gep inbounds elem base indices =>
    exact congrArg some (mirrors.addressOf (fun x listed => inside x (List.mem_cons_of_mem base listed)) elem base)
  | cast op x target =>
    have here : x < s.module.defs.size := inside x (by simp [Inst.operands])
    cases op with
    | trunc | zext | ptrtoint | inttoptr =>
      exact congrArg some (mirrors.apply_wordOf here fun word => (word.setWidth w).toNat)
    | sext => exact congrArg some (mirrors.apply_wordOf here fun word => (word.signExtend w).toNat)
    | bitcast =>
      unfold Analysis.instMeaning?
      dsimp only
      rw [mirrors.typeOf here, mirrors.width?]
    | fptrunc | fpext | fptoui | fptosi | uitofp | sitofp | addrspacecast => rfl
  | arith | select | phi | call | extractValue | other => rfl

lemma defTyped (found : s.module.get? v = some d) (name : IR.Name) (typed : DefTyped s w d) :
    DefTyped s' w (d.setName name) := by
  cases d with
  | inst n t i trail => exact mirrors.instTyped (mirrors.closed.reads v _ found) typed
  | const t k =>
    cases k with
    | int n => exact (mirrors.alike.resolve t).trans typed
    | null => exact typed.trans (congrArg Layout.pointerBits mirrors.layout.symm)
    | gep inbounds elem base indices => exact mirrors.addressTyped typed
    | undef | other => trivial
  | param | term | block | global | func | attributed => trivial

lemma sane (sane : Sane s v w d) :
    (∃ d', Sane s' v w d') ∧ demands s' v = demands s v ∧ ∀ val, meaning? s' val v = meaning? s val v := by
  have inside : v < s.module.defs.size := sane.bits.lt_size
  obtain ⟨d₀, name, here, there⟩ := mirrors.alike.renamed inside
  cases sane.found.symm.trans here
  have type := mirrors.typeOf inside
  refine ⟨⟨d.setName name, there, mirrors.hasBits sane.bits, sane.positive, sane.narrow,
    mirrors.defTyped here name sane.typed, fun named => ?_, fun extracts => ?_⟩, ?_, fun val => ?_⟩
  · rw [isLiteral_setName] at named
    exact mirrors.alike.identText (sane.written named)
  · rw [isExtraction_setName] at extracts
    cases d with
    | inst n t i trail => exact mirrors.alike.lineText mirrors.closed (sane.line extracts)
    | _ => cases extracts
  · unfold demands
    rw [type, mirrors.width?, there, here]
    cases d with
    | inst n t i trail =>
      dsimp only [Def.setName]
      rw [mirrors.instDemands (mirrors.closed.reads v _ here)]
    | const t k =>
      cases k with
      | gep inbounds elem base indices =>
        have typed : AddressTyped s w elem base (indices.map Prod.snd) := sane.typed
        dsimp only [Def.setName]
        rw [mirrors.filter_isComputed typed.2.2.lt_size]
      | _ => rfl
    | _ => rfl
  · unfold Analysis.meaning?
    rw [type, mirrors.width?, there, here]
    cases d with
    | inst n t i trail =>
      simp only [Def.setName, mirrors.instMeaning? (mirrors.closed.reads v _ here)]
    | const t k =>
      cases k with
      | int n => simp only [Def.setName, mirrors.alike.resolve]
      | gep inbounds elem base indices =>
        have typed : AddressTyped s w elem base (indices.map Prod.snd) := sane.typed
        simp only [Def.setName, mirrors.addressOf typed.2.2.lt_size]
      | _ => rfl
    | _ => rfl

lemma proper (proper : Proper s v) : Proper s' v := by
  induction proper with
  | @intro v w d sane _ ih =>
    obtain ⟨⟨d', sane'⟩, demands, -⟩ := mirrors.sane sane
    exact .intro sane' fun x demanded => ih x (demands ▸ demanded)

/-! ## Environments -/

/-- The proper values that are given hang together in the other setting, too. -/
lemma consistent {env : Env} (consistent : Consistent s env) : Consistent s' (env.only (Proper s)) := by
  intro v n given
  obtain ⟨proper, given⟩ := Env.only_some given
  obtain ⟨operands, bounded, defined⟩ := consistent v n given
  obtain ⟨w, d, sane, demanded⟩ := proper.sane
  obtain ⟨-, demands, meaning⟩ := mirrors.sane sane
  refine ⟨fun x listed => ?_, fun w has => ?_, fun k means => ?_⟩
  · rw [demands] at listed
    rw [env.only_eq (demanded x listed)]
    exact operands x listed
  · exact bounded w ((mirrors.hasBits_iff proper.hasBits.lt_size).1 has)
  · refine defined k ?_
    rw [← means, meaning]
    refine meaning?_congr fun x listed => ?_
    rw [Env.value, Env.value, env.only_eq (demanded x listed)]

end Mirrors

end Faultline.Analysis
