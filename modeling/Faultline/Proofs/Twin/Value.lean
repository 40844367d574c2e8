/-
# Proofs.Twin.Value — twins are expressed alike

The value engine follows the definition of a value, and those of twins are alike: it
expresses both or refuses both, and the formulas are a pair (`express_both`). How
operands are looked up is left open here.
-/
import Faultline.Proofs.Twin.Bench

namespace Faultline.Analysis

open IR (ValueId Ty Inst)
open Formula (Handle Links)
open List

variable {R : ValueId → ValueId → Prop} {s s' : Setting} {l k : Links} {v v' x x' y y' : ValueId}
  {indices indices' : List ValueId} {owner owner' : ValueId}

section Setting

variable (twins : s.Twins R s')

include twins

lemma width?_twin (t : Ty) : s'.width? t = s.width? t := by
  unfold Setting.width?
  rw [twins.module.resolve_eq, twins.layout]

lemma extent_twin (t : Ty) : s'.extent t = s.extent t := by
  unfold Setting.extent
  rw [twins.layout, twins.module.types]

lemma widthOf_twin (same : R v v') : s'.width? (s'.module.typeOf v') = s.width? (s.module.typeOf v) := by
  rw [twins.module.typeOf_eq same, width?_twin twins]

lemma ident_both (same : R v v') : InStep (Side R s s') l (fun _ => Eq) (s.ident v) (s'.ident v') := by
  unfold Setting.ident
  rw [twins.module.ident same]
  split
  · exact .pure fun _ _ => rfl
  · exact .throw

lemma free_both (same : R v v') : InStep (Side R s s') l Links.Pair (free s v) (free s' v') := by
  unfold free
  dsimp only
  rw [twins.module.typeOf_eq same, width?_twin twins, extent_twin twins]
  exact (ident_both twins same).bind fun k _ name name' _ => call_both (.var _ name name')

lemma widthOrFault_both (t : Ty) : InStep (Side R s s') l (fun _ => Eq) (widthOrFault s t) (widthOrFault s' t) := by
  unfold widthOrFault
  rw [width?_twin twins]
  split
  · exact .pure fun _ _ => rfl
  · exact .throw

lemma constIndex_both (like : s.module.Like R s'.module v v') :
    InStep (Side R s s') l (fun _ i i' => i = i' ∧ constIndex s.module v = .ok i)
      (liftM (constIndex s.module v) : Analyze (Option Int)) (liftM (constIndex s'.module v') : Analyze (Option Int)) := by
  rw [twins.module.constIndex_eq_of_like like]
  refine .lift ?_
  rcases constIndex s.module v with e | i
  · trivial
  · exact ⟨rfl, rfl⟩

/-! ## Expressing a value -/

variable {look look' : ValueId → Analyze Handle}

lemma extend_both (looks : InStep (Side R s s') l Links.Pair (look x) (look' x')) (target : Ty) (withSign : Bool) :
    InStep (Side R s s') l Links.Pair (extend s look x target withSign) (extend s' look' x' target withSign) := by
  unfold extend
  refine looks.bind fun k _ f f' pair => ?_
  refine (widthOrFault_both twins target).bind fun k within dw _ same => ?_
  subst same
  refine (width_both (.inl (within.pairs pair))).bind fun k more w _ same => ?_
  subst same
  have pair := more.pairs (within.pairs pair)
  cases withSign
  · exact call_both (.zext (.inl pair) fun _ => pair)
  · exact call_both (.sext (.inl pair) fun _ => pair)

lemma reinterpret_both (same : R x x') (looks : InStep (Side R s s') l Links.Pair (look x) (look' x')) (target : Ty) :
    InStep (Side R s s') l Links.Pair (reinterpret s look x target) (reinterpret s' look' x' target) := by
  unfold reinterpret
  rw [twins.module.typeOf_eq same, extent_twin twins, extent_twin twins]
  refine looks.bind fun k _ f f' pair => ?_
  refine (width_both (.inl pair)).bind fun k within w _ same => ?_
  subst same
  refine (widthOrFault_both twins target).bind fun k more dw _ same => ?_
  subst same
  have pair := more.pairs (within.pairs pair)
  dsimp only
  split
  · exact retain_both pair
  · split
    · exact call_both (.extract pair _ 0)
    · exact call_both (.zext (.inl pair) fun _ => pair)

lemma pointerIndex_both (looks : InStep (Side R s s') l Links.Pair (look x) (look' x')) (fields fields' : LogFields) :
    InStep (Side R s s') l Links.Pair (pointerIndex s look fields x) (pointerIndex s' look' fields' x') := by
  unfold pointerIndex
  rw [twins.layout]
  refine looks.bind fun k _ f f' pair => ?_
  refine (width_both (.inl pair)).bind fun k within w _ same => ?_
  subst same
  have pair := within.pairs pair
  dsimp only
  split
  · refine (log_both _ _ _ _).bind fun k within _ _ _ => ?_
    have pair := within.pairs pair
    exact call_both (.sext (.inl pair) fun _ => pair)
  · split
    · exact (log_both _ _ _ _).bind fun k within _ _ _ => call_both (.extract (within.pairs pair) _ 0)
    · exact retain_both pair

lemma stride_both (owners : R owner owner') (t : Ty) (isFirst : Bool) (same : R v v') :
    InStep (Side R s s') l (fun _ => Eq) (stride s owner t isFirst v) (stride s' owner' t isFirst v') := by
  unfold stride
  rw [twins.module.resolve_eq, twins.layout, twins.module.types]
  split
  · exact .pure fun _ _ => rfl
  · split
    · refine (constIndex_both twins (.inl same)).bind fun k _ i _ h => ?_
      obtain ⟨rfl, -⟩ := h
      rcases i with _ | i
      · exact (ident_both twins owners).bind fun _ _ _ _ _ => .throw
      · dsimp only
        split
        · exact .pure fun _ _ => rfl
        · exact .throw
    · refine (constIndex_both twins (.inl same)).bind fun k _ i _ h => ?_
      obtain ⟨rfl, -⟩ := h
      rcases i with _ | i
      · exact (ident_both twins owners).bind fun _ _ _ _ _ => .throw
      · exact .throw
    · exact .pure fun _ _ => rfl
    · exact .pure fun _ _ => rfl
    · exact .throw

/-- An index and its twin; one that is computed can be looked up. -/
def Indexes (R : ValueId → ValueId → Prop) (s s' : Setting) (l : Links) (look look' : ValueId → Analyze Handle) (x x' : ValueId) : Prop :=
  R x x' ∧ (isComputed s.module x → InStep (Side R s s') l Links.Pair (look x) (look' x'))

lemma steps_both (owners : R owner owner') (fields fields' : LogFields)
    (looks : Forall₂ (Indexes R s s' l look look') indices indices') (within : l.Within k) (isFirst : Bool) (t : Ty)
    {addr addr' : Handle} (pair : k.Pair addr addr') (offset : Int) :
    InStep (Side R s s') k (fun j r r' => j.Pair r.1 r'.1 ∧ r'.2 = r.2)
      (steps s look owner fields indices isFirst t addr offset) (steps s' look' owner' fields' indices' isFirst t addr' offset) := by
  induction looks generalizing k isFirst t addr addr' offset with
  | nil => exact .pure fun j more => ⟨more.pairs pair, rfl⟩
  | cons here _ ih =>
    unfold steps
    refine (stride_both twins owners t isFirst here.1).bind fun j more stride _ same => ?_
    subst same
    have within := within.trans more
    have pair := more.pairs pair
    cases stride with
    | field o t => exact ih within false t pair _
    | elements e =>
      dsimp only
      rw [extent_twin twins, twins.layout]
      refine (constIndex_both twins (.inl here.1)).bind fun j more index _ read => ?_
      obtain ⟨rfl, read⟩ := read
      have within := within.trans more
      have pair := more.pairs pair
      rcases index with _ | c
      · have looked := (here.2 (isComputed_eq s.module read)).later within
        refine (pointerIndex_both twins looked fields fields').bind fun j more index index' indexed => ?_
        have within := within.trans more
        have pair := more.pairs pair
        refine (call_both (.const _ _)).bind fun j more scale scale' scaled => ?_
        have within := within.trans more
        have pair := more.pairs pair
        have indexed := more.pairs indexed
        refine (call_both (.binary _ (.inl indexed) (.inl scaled))).bind fun j more term term' product => ?_
        have within := within.trans more
        have pair := more.pairs pair
        have indexed := more.pairs indexed
        have scaled := more.pairs scaled
        refine (call_both (.binary _ (.inl pair) (.inl product))).bind fun j more next next' sum => ?_
        have within := within.trans more
        have back : Forall₂ j.Pair [index, scale, term, addr] [index', scale', term', addr'] :=
          .cons (more.pairs indexed) (.cons (more.pairs scaled) (.cons (more.pairs product) (.cons (more.pairs pair) .nil)))
        exact (release_both back).bind fun i more _ _ _ => ih (within.trans more) false e (more.pairs sum) offset
      · exact ih within false e pair _

lemma address_both (same : R v v') (elem : Ty) {base base' : ValueId}
    (looks : InStep (Side R s s') l Links.Pair (look base) (look' base'))
    (indexed : Forall₂ (Indexes R s s' l look look') indices indices') :
    InStep (Side R s s') l Links.Pair (address s look v elem base indices) (address s' look' v' elem base' indices') := by
  unfold address
  rw [twins.layout]
  refine (ident_both twins same).bind fun k within name _ _ => ?_
  refine (looks.later within).bind fun k more f f' pair => ?_
  have within := within.trans more
  refine (retain_both pair).bind fun k more addr addr' pair => ?_
  have within := within.trans more
  refine (steps_both twins same _ _ indexed within true elem pair 0).bind fun k _ r r' h => ?_
  obtain ⟨addr, offset⟩ := r
  obtain ⟨addr', _⟩ := r'
  obtain ⟨pair, rfl⟩ := h
  dsimp only
  split
  · exact .pure fun _ within => within.pairs pair
  · refine (log_both _ _ _ _).bind fun k within _ _ _ => ?_
    have pair := within.pairs pair
    refine (call_both (.const _ _)).bind fun k within c c' constant => ?_
    have pair := within.pairs pair
    refine (call_both (.binary _ (.inl pair) (.inl constant))).bind fun k within sum sum' total => ?_
    refine (release_both (.cons (within.pairs pair) (.cons (within.pairs constant) .nil))).bind fun k within _ _ _ => ?_
    exact .pure fun _ more => more.pairs (within.pairs total)

omit twins in
lemma binary_both (op : Formula.Binary) (first : InStep (Side R s s') l Links.Alike (look x) (look' x'))
    (second : InStep (Side R s s') l Links.Alike (look y) (look' y')) :
    InStep (Side R s s') l Links.Pair (binary look op x y) (binary look' op x' y') := by
  unfold binary
  refine first.bind fun k within f f' left => ?_
  exact (second.later within).bind fun k more g g' right => call_both (.binary op (left.mono more) right)

omit twins in
lemma select_both {c c' : ValueId} (flags : List String) (cond : InStep (Side R s s') l Links.Pair (look c) (look' c'))
    (onTrue : InStep (Side R s s') l Links.Pair (look x) (look' x'))
    (onFalse : InStep (Side R s s') l Links.Pair (look y) (look' y')) :
    InStep (Side R s s') l Links.Pair (ofInst s look v (.select flags c x y)) (ofInst s' look' v' (.select flags c' x' y')) := by
  refine cond.bind fun k within f f' first => ?_
  refine (onTrue.later within).bind fun k more g g' second => ?_
  refine (onFalse.later (within.trans more)).bind fun k further h h' third => ?_
  exact call_both (.ite ((more.trans further).pairs first) (further.pairs second) third)

/-- What the value and its twin demand can be looked up side by side. -/
structure Looks₂ (R : ValueId → ValueId → Prop) (s s' : Setting) (l : Links) (look look' : ValueId → Analyze Handle)
    (xs xs' : List ValueId) : Prop where
  strict : ∀ x ∈ xs, ∀ x' ∈ xs', R x x' → InStep (Side R s s') l Links.Pair (look x) (look' x')
  loose : ∀ x ∈ xs, ∀ x' ∈ xs', s.module.Like R s'.module x x' → InStep (Side R s s') l Links.Alike (look x) (look' x')

lemma isComputed_twin (same : R v v') : isComputed s'.module v' = isComputed s.module v := by
  unfold isComputed
  rw [twins.module.constIndex_eq same]

lemma indexes_of_looks {first first' : ValueId} (same : Forall₂ R indices indices')
    (looks : Looks₂ R s s' l look look' (first :: indices.filter (isComputed s.module))
      (first' :: indices'.filter (isComputed s'.module))) :
    Forall₂ (Indexes R s s' l look look') indices indices' := by
  rw [forall₂_iff_zip] at same ⊢
  refine ⟨same.1, fun {x x'} mem => ⟨same.2 mem, fun computed => ?_⟩⟩
  obtain ⟨listed, listed'⟩ := of_mem_zip mem
  refine looks.strict x ?_ x' ?_ (same.2 mem)
  · exact mem_cons_of_mem _ (mem_filter.2 ⟨listed, computed⟩)
  · exact mem_cons_of_mem _ (mem_filter.2 ⟨listed', (isComputed_twin twins (same.2 mem)).trans computed⟩)

lemma ofInst_both (same : R v v') {i i' : Inst ValueId} (twin : i.Twin R (s.module.Like R s'.module) i')
    (looks : Looks₂ R s s' l look look' (instDemands s i) (instDemands s' i')) :
    InStep (Side R s s') l Links.Pair (ofInst s look v i) (ofInst s' look' v' i') := by
  have free := free_both twins (l := l) same
  cases twin with
  | arith op flags first second =>
    exact binary_both (.arith op) (looks.loose _ (by simp [instDemands]) _ (by simp [instDemands]) first)
      (looks.loose _ (by simp [instDemands]) _ (by simp [instDemands]) second)
  | icmp pred first second =>
    cases pred with
    | known op =>
      exact binary_both (.compare op) (looks.loose _ (by simp [instDemands]) _ (by simp [instDemands]) first)
        (looks.loose _ (by simp [instDemands]) _ (by simp [instDemands]) second)
    | unknown => exact .throw
  | gep inbounds elem base indices =>
    exact address_both twins same elem (looks.strict _ (by simp [instDemands]) _ (by simp [instDemands]) base)
      (indexes_of_looks twins indices looks)
  | cast op target operand =>
    cases op with
    | trunc =>
      refine (looks.strict _ (by simp [instDemands]) _ (by simp [instDemands]) operand).bind fun k _ f f' pair => ?_
      refine (widthOrFault_both twins target).bind fun k within w _ same => ?_
      subst same
      exact call_both (.extract (within.pairs pair) _ 0)
    | zext => exact extend_both twins (looks.strict _ (by simp [instDemands]) _ (by simp [instDemands]) operand) target false
    | sext => exact extend_both twins (looks.strict _ (by simp [instDemands]) _ (by simp [instDemands]) operand) target true
    | ptrtoint =>
      exact reinterpret_both twins operand (looks.strict _ (by simp [instDemands]) _ (by simp [instDemands]) operand) target
    | inttoptr =>
      exact reinterpret_both twins operand (looks.strict _ (by simp [instDemands]) _ (by simp [instDemands]) operand) target
    | bitcast =>
      have wide := widthOf_twin twins operand
      unfold ofInst
      unfold instDemands at looks
      dsimp only at looks ⊢
      rw [wide] at looks ⊢
      revert looks
      rcases s.width? (s.module.typeOf _) with _ | w
      · exact fun _ => free
      · intro looks
        refine (looks.strict _ (by simp) _ (by simp) operand).bind fun k _ f f' pair => ?_
        exact retain_both pair
    | fptrunc | fpext | fptoui | fptosi | uitofp | sitofp | addrspacecast => exact free
  | select flags cond onTrue onFalse =>
    exact select_both flags (looks.strict _ (by simp [instDemands]) _ (by simp [instDemands]) cond)
      (looks.strict _ (by simp [instDemands]) _ (by simp [instDemands]) onTrue)
      (looks.strict _ (by simp [instDemands]) _ (by simp [instDemands]) onFalse)
  | extractValue x x' path =>
    unfold ofInst
    dsimp only
    rw [twins.module.line same]
    split
    · exact (log_both _ _ _ _).bind fun k within _ _ _ => free_both twins same
    · exact .throw
  | phi | call | other => exact free

/-- Expressing twins side by side. -/
lemma express_both (same : R v v') (looks : Looks₂ R s s' l look look' (demands s v) (demands s' v')) :
    InStep (Side R s s') l Links.Pair (express s look v) (express s' look' v') := by
  obtain ⟨d, d', found, found', twin⟩ := twins.module.defs same
  have free := free_both twins (l := l) same
  have wide := widthOf_twin twins same
  unfold express
  unfold demands at looks
  rw [wide, found, found'] at looks
  rw [wide, found, found', twins.layout]
  revert looks
  rcases s.width? (s.module.typeOf v) with _ | w
  · exact fun _ => free
  · dsimp only [Option.isSome_some]
    rw [if_pos rfl, if_pos rfl]
    intro looks
    cases twin with
    | inst name type twin => exact ofInst_both twins same twin looks
    | const t twin =>
      cases twin with
      | int n =>
        dsimp only
        rw [twins.module.resolve_eq]
        split
        · exact call_both (.const _ n)
        · exact free
      | null => exact call_both (.const _ 0)
      | gep inbounds elem base indices =>
        exact address_both twins same elem (looks.strict _ (by simp) _ (by simp) base)
          (indexes_of_looks twins indices looks)
      | undef | other => exact free
    | param | term | block | global | func | attributed => exact free

end Setting

end Faultline.Analysis
