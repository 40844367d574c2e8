/-
# Proofs.Twin.Path — twins are reached alike

The path engine and the conditions of sentinel calls on top of the value engine: for
matching blocks and calls they return pairs, or refuse both (`question_both`).
-/
import Faultline.Proofs.Twin.Lookup

namespace Faultline.Analysis

open IR (ValueId)
open Formula (Arena Handle Links)
open List Formula

variable {R : ValueId → ValueId → Prop} {s s' : Setting} {l k : Links} {f f' g g' x x' : Handle} {target target' : ValueId}
  {block' call' source' : ValueId} {i : Nat} {cases' : List (ValueId × ValueId) }

lemma getD_setIfInBounds (hs : Array Handle) (i j : Nat) (h : Handle) :
    (hs.setIfInBounds i h).getD j 0 = if i = j ∧ i < hs.size then h else hs.getD j 0 := by
  rw [Array.getD_eq_getD_getElem?, Array.getD_eq_getD_getElem?, Array.getElem?_setIfInBounds]
  by_cases same : i = j
  · subst same
    by_cases inside : i < hs.size <;> simp [inside]
  · simp [same]

/-! ## Edges -/

lemma joined_both (op : Arith) (first : l.Pair f f') (second : l.Pair g g') :
    InStep (Side R s s') l Links.Pair (joined op f g) (joined op f' g') := by
  unfold joined
  refine (call_both (.binary _ (.inl first) (.inl second))).bind fun k within next next' pair => ?_
  refine (release_both (.cons (within.pairs first) (.cons (within.pairs second) .nil))).bind fun k more _ _ _ => ?_
  exact .pure fun _ further => further.pairs (more.pairs pair)

section Twins

variable (twins : s.Twins R s')

include twins

lemma someCase_both (targets : R target target') {cases : List (ValueId × ValueId)}
    (ways : Forall₂ (fun p p' => R p.1 p'.1 ∧ R p.2 p'.2) cases cases') (value : l.Pair x x') (pair : l.Pair f f') :
    InStep (Side R s s') l Links.Pair (someCase s x target cases f) (someCase s' x' target' cases' f') := by
  induction ways generalizing l f f' with
  | nil => exact .pure fun _ within => within.pairs pair
  | @cons p p' _ _ here _ ih =>
    obtain ⟨c, b⟩ := p
    obtain ⟨c', b'⟩ := p'
    unfold someCase
    rw [if_congr (twins.module.once here.2 targets) rfl rfl]
    split
    · refine (lookup_both twins here.1).bind fun k within h h' found => ?_
      refine (call_both (.binary _ (.inl (within.pairs value)) (.inl found))).bind fun k more eq eq' same => ?_
      have within := within.trans more
      refine (joined_both .or (within.pairs pair) same).bind fun k more next next' pair => ?_
      exact ih ((within.trans more).pairs value) pair
    · exact ih value pair

lemma noCase_both {cases : List (ValueId × ValueId)}
    (ways : Forall₂ (fun p p' => R p.1 p'.1 ∧ R p.2 p'.2) cases cases') (value : l.Pair x x') (pair : l.Pair f f') :
    InStep (Side R s s') l Links.Pair (noCase s x cases f) (noCase s' x' cases' f') := by
  induction ways generalizing l f f' with
  | nil => exact .pure fun _ within => within.pairs pair
  | @cons p p' _ _ here _ ih =>
    obtain ⟨c, b⟩ := p
    obtain ⟨c', b'⟩ := p'
    unfold noCase
    refine (lookup_both twins here.1).bind fun k within h h' found => ?_
    refine (call_both (.binary _ (.inl (within.pairs value)) (.inl found))).bind fun k more ne ne' same => ?_
    have within := within.trans more
    refine (joined_both .and (within.pairs pair) same).bind fun k more next next' pair => ?_
    exact ih ((within.trans more).pairs value) pair

lemma terminatorOf?_both (below : i < s.graph.size) : (terminatorOf? s i = none ∧ terminatorOf? s' i = none) ∨
      ∃ t t', terminatorOf? s i = some t ∧ terminatorOf? s' i = some t' ∧ t.Twin R t' := by
  have terms := (twins.graph.block below).term
  unfold terminatorOf?
  rcases term : (s.graph.block i).term with _ | v <;> rcases term' : (s'.graph.block i).term with _ | v' <;>
    rw [term, term'] at terms
  · exact .inl ⟨rfl, rfl⟩
  · cases terms
  · cases terms
  · obtain ⟨d, d', found, found', twin⟩ := twins.module.defs (forall₂_cons.1 terms).1
    simp only [Option.bind_some, found, found']
    cases twin with
    | term name type twin => exact .inr ⟨_, _, rfl, rfl, twin⟩
    | param | inst | block | const | global | func | attributed => exact .inl ⟨rfl, rfl⟩

lemma edgeCondition_both {source target : Nat} (below : source < s.graph.size) (inside : target < s.graph.size) :
    InStep (Side R s s') l Links.Pair (edgeCondition s source target) (edgeCondition s' source target) := by
  have dest := (twins.graph.block inside).id
  unfold edgeCondition
  obtain ⟨none, none'⟩ | ⟨t, t', some, some', twin⟩ := terminatorOf?_both twins below
  · rw [none, none']
    exact ofBool_both true
  · rw [some, some']
    cases twin with
    | condBr cond onTrue onFalse =>
      dsimp only
      rw [if_congr (twins.module.once onTrue onFalse) rfl rfl]
      split
      · exact ofBool_both true
      · refine (lookup_both twins cond).bind fun k _ c c' pair => ?_
        rw [if_congr (twins.module.once onTrue dest) rfl rfl]
        split
        · exact retain_both pair
        · exact call_both (.not pair)
    | switch value default ways =>
      refine (lookup_both twins value).bind fun k _ x x' found => ?_
      refine (ofBool_both false).bind fun k within f f' pair => ?_
      have found := within.pairs found
      refine (someCase_both twins dest ways found pair).bind fun k within f f' pair => ?_
      have found := within.pairs found
      rw [if_congr (twins.module.once default dest) rfl rfl]
      split
      · refine (ofBool_both true).bind fun k within g g' other => ?_
        refine (noCase_both twins ways (within.pairs found) other).bind fun k more g g' other => ?_
        exact joined_both .or ((within.trans more).pairs pair) other
      · exact .pure fun _ within => within.pairs pair
    | ret | br | invoke | callbr | other => exact ofBool_both true

lemma incomingEqual_both {phi phi' source : ValueId} (phis : R phi phi') (sources : R source source')
    {incoming incoming' : List (ValueId × ValueId)}
    (ways : Forall₂ (fun p p' => R p.1 p'.1 ∧ R p.2 p'.2) incoming incoming') (pair : l.Pair f f') :
    InStep (Side R s s') l Links.Pair (incomingEqual s phi source incoming f) (incomingEqual s' phi' source' incoming' f') := by
  induction ways generalizing l f f' with
  | nil => exact .pure fun _ within => within.pairs pair
  | @cons p p' _ _ here _ ih =>
    obtain ⟨x, b⟩ := p
    obtain ⟨x', b'⟩ := p'
    have from_ : decide (b' = source') = decide (b = source) := decide_eq_decide.2 (twins.module.once here.2 sources).symm
    unfold incomingEqual
    rw [twins.module.isUndef_eq here.1, from_]
    split
    · refine (lookup_both twins here.1).bind fun k within h h' found => ?_
      refine (lookup_both twins phis).bind fun k more p p' there => ?_
      refine (call_both (.binary _ (.inl (more.pairs found)) (.inl there))).bind fun k further eq eq' same => ?_
      have within := within.trans (more.trans further)
      exact (joined_both .and (within.pairs pair) same).bind fun k more next next' pair => ih pair
    · exact ih pair

lemma phisEqual_both {source : ValueId} (sources : R source source') {insts insts' : List ValueId}
    (listed : Forall₂ R insts insts') (pair : l.Pair f f') :
    InStep (Side R s s') l Links.Pair (phisEqual s source insts f) (phisEqual s' source' insts' f') := by
  induction listed generalizing l f f' with
  | nil => exact .pure fun _ within => within.pairs pair
  | cons here _ ih =>
    obtain ⟨d, d', found, found', twin⟩ := twins.module.defs here
    have done : InStep (Side R s s') l Links.Pair (Pure.pure f : Analyze Handle) (Pure.pure f' : Analyze Handle) :=
      .pure fun _ within => within.pairs pair
    unfold phisEqual
    rw [found, found']
    cases twin with
    | inst name type twin =>
      cases twin with
      | phi flags t ways =>
        dsimp only
        rw [width?_twin twins]
        split
        · exact (incomingEqual_both twins here sources ways pair).bind fun k _ next next' pair => ih pair
        · exact ih pair
      | arith | icmp | gep | cast | select | call | extractValue | other => exact done
    | param | term | block | const | global | func | attributed => exact done

lemma phiCondition_both {source target : Nat} (below : source < s.graph.size) (inside : target < s.graph.size) :
    InStep (Side R s s') l Links.Pair (phiCondition s source target) (phiCondition s' source target) := by
  unfold phiCondition
  refine (ofBool_both true).bind fun k _ f f' pair => ?_
  exact phisEqual_both twins (twins.graph.block below).id (twins.graph.block inside).insts pair

/-! ## Blocks -/

lemma waysInto_both {reach reach' : Nat → Analyze Handle} (inside : i < s.graph.size) {preds : List Nat}
    (reaches : ∀ p ∈ preds, p < s.graph.size ∧ InStep (Side R s s') l Links.Pair (reach p) (reach' p)) (within : l.Within k)
    (pair : k.Pair f f') :
    InStep (Side R s s') k Links.Pair (waysInto s reach i preds f) (waysInto s' reach' i preds f') := by
  induction preds generalizing k f f' with
  | nil => exact .pure fun _ more => more.pairs pair
  | cons p preds ih =>
    obtain ⟨⟨below, reached⟩, others⟩ := forall_mem_cons.1 reaches
    unfold waysInto
    rw [twins.cut]
    split
    · exact ih others within pair
    · refine (edgeCondition_both twins below inside).bind fun k more cond cond' conds => ?_
      have within := within.trans more
      have pair := more.pairs pair
      refine (phiCondition_both twins below inside).bind fun k more phis phis' equal => ?_
      have within := within.trans more
      have pair := more.pairs pair
      have conds := more.pairs conds
      refine (call_both (.binary _ (.inl conds) (.inl equal))).bind fun k more edge edge' edges => ?_
      have within := within.trans more
      have pair := more.pairs pair
      refine (release_both (.cons (more.pairs conds) (.cons (more.pairs equal) .nil))).bind fun k more _ _ _ => ?_
      have within := within.trans more
      have pair := more.pairs pair
      have edges := more.pairs edges
      refine (reached.later within).bind fun k more before before' befores => ?_
      have within := within.trans more
      have pair := more.pairs pair
      have edges := more.pairs edges
      refine (call_both (.binary _ (.inl edges) (.inl befores))).bind fun k more way way' ways => ?_
      have within := within.trans more
      have pair := more.pairs pair
      have edges := more.pairs edges
      refine (call_both (.binary _ (.inl pair) (.inl ways))).bind fun k more next next' nexts => ?_
      have within := within.trans more
      have back : Forall₂ k.Pair [edge, way, f] [edge', way', f'] :=
        .cons (more.pairs edges) (.cons (more.pairs ways) (.cons (more.pairs pair) .nil))
      exact (release_both back).bind fun k more _ _ _ => ih others (within.trans more) (more.pairs nexts)

omit twins in
lemma kept_both (i : Nat) :
    InStep (Side R s s') l (fun k f f' => (f = 0 ∧ f' = 0) ∨ f ≠ 0 ∧ f' ≠ 0 ∧ k.Pair f f') (kept i) (kept i) := by
  intro k b b' _ side
  obtain ⟨ps, ps', paths, paths', -, pairs⟩ := side.paths
  unfold kept
  refine Abreast.get_bind ?_
  rw [paths, paths']
  refine Abreast.pure ⟨k, .refl k, side, (pairs i).imp_right fun pair => ?_⟩
  obtain ⟨n, n', found, found', -⟩ := side.tied.node _ pair
  exact ⟨(Arena.realized_of_node? side.tied.ofLeft.isOpen found).1.ne',
    (Arena.realized_of_node? side.tied.ofRight.isOpen found').1.ne', pair⟩

omit twins in
lemma keep_both (i : Nat) (pair : l.Pair f f') : InStep (Side R s s') l Links.Pair (keep i f) (keep i f') := by
  intro k b b' within side
  obtain ⟨ps, ps', paths, paths', sizes, pairs⟩ := side.paths
  have pair := within.pairs pair
  refine Abreast.modify_bind (Abreast.pure ⟨k, .refl k, ⟨side.tied, ?_, ?_, side.known, side.left, side.right, ?_⟩, pair⟩)
  · exact ⟨⟨side.ofLeft.wellFormed, side.ofLeft.node⟩, side.ofLeft.open_, side.ofLeft.grounded⟩
  · exact ⟨⟨side.ofRight.wellFormed, side.ofRight.node⟩, side.ofRight.open_, side.ofRight.grounded⟩
  · refine ⟨ps.setIfInBounds i f, ps'.setIfInBounds i f', by rw [paths]; rfl, by rw [paths']; rfl, by simp [sizes], fun j => ?_⟩
    rw [getD_setIfInBounds, getD_setIfInBounds, sizes]
    split
    · exact .inr pair
    · exact pairs j

/-- **Matching blocks are reached alike.** -/
theorem reachFrom_both (depth : Nat) (active : List Nat) (below : i < s.graph.size) :
    InStep (Side R s s') l Links.Pair (reachFrom s depth active i) (reachFrom s' depth active i) := by
  obtain ⟨fn, built⟩ := twins.built
  induction depth generalizing l active i with
  | zero => exact .throw
  | succ depth ih =>
    unfold reachFrom
    refine (kept_both i).bind fun k _ f f' both => ?_
    obtain ⟨rfl, rfl⟩ | ⟨some, some', pair⟩ := both
    · have none : ¬ (0 : Handle) ≠ 0 := fun some => some rfl
      rw [if_neg none, if_neg none, twins.graph.predsOf_eq]
      split
      · exact (ofBool_both true).bind fun k _ f f' pair => keep_both i pair
      · split
        · exact .throw
        · refine (ofBool_both false).bind fun k _ f f' pair => ?_
          refine (waysInto_both twins below (fun p listed => ?_) (.refl k) pair).bind fun k _ f f' pair => keep_both i pair
          have inside := Flow.Graph.lt_of_mem_succsOf built ((Flow.Graph.mem_predsOf built below).1 listed)
          exact ⟨inside, ih (i :: active) inside⟩
    · rw [if_pos some, if_pos some']
      exact .pure fun _ within => within.pairs pair

lemma path_both {block : ValueId} (same : R block block') :
    InStep (Side R s s') l Links.Pair (path s block) (path s' block') := by
  obtain ⟨fn, built⟩ := twins.built
  have found := twins.graph.index block block' same
  unfold path Flow.Graph.indexOf
  rw [found, twins.graph.size_eq]
  rcases index : s.graph.index[block]? with _ | i
  · exact .throw
  · have below : i < s.graph.size := by
      refine (Flow.Graph.of_indexOf built (v := block) ?_).1
      unfold Flow.Graph.indexOf
      rw [index]
    exact (reachFrom_both twins _ [] below).bind fun k _ f f' pair => retain_both pair

/-! ## Conditions -/

omit twins in
lemma overflow_both (op : Sentinel.Guarded) (withSign : Bool) (first : l.Alike f f') (second : l.Alike g g') :
    InStep (Side R s s') l Links.Pair (build (overflow op withSign f g)) (build (overflow op withSign f' g')) := by
  refine build_inStep (overflow_orderly op withSign f g) (overflow_orderly op withSign f' g') ?_
  cases op <;> cases withSign
  · exact uaddOverflow_inStep first second
  · exact saddOverflow_inStep first second
  · exact usubOverflow_inStep first second
  · exact ssubOverflow_inStep first second
  · exact umulOverflow_inStep first second
  · exact smulOverflow_inStep first second

lemma condition_both (name : Text.Bytes) {args args' : List ValueId}
    (likes : Forall₂ (s.module.Like R s'.module) args args')
    (single : args.length = 1 → Forall₂ R args args') :
    InStep (Side R s s') l Links.Pair (condition s name args) (condition s' name args') := by
  unfold condition
  rcases Sentinel.kindOf? name with _ | _ | _
  · exact .throw
  · rcases likes with _ | ⟨code, _ | ⟨first, _ | ⟨second, _ | ⟨flag, _ | _⟩⟩⟩⟩
    case cons.cons.cons.cons.nil =>
      refine (constIndex_both twins code).bind fun k _ i _ h => ?_
      obtain ⟨rfl, -⟩ := h
      rcases i with _ | i
      · exact .throw
      · refine (constIndex_both twins flag).bind fun k _ j _ h => ?_
        obtain ⟨rfl, -⟩ := h
        rcases j with _ | j
        · exact .throw
        · refine (lookup_like twins first).bind fun k _ f f' left => ?_
          refine (lookup_like twins second).bind fun k within g g' right => ?_
          split
          · exact overflow_both _ _ (left.mono within) right
          · exact .throw
    all_goals exact .throw
  · rcases likes with _ | ⟨cond, _ | _⟩
    case cons.nil => exact value_both twins (forall₂_cons.1 (single rfl)).1
    all_goals exact .throw

lemma conditionOf_both {call : ValueId} (same : R call call') :
    InStep (Side R s s') l Links.Pair (conditionOf s call) (conditionOf s' call') := by
  obtain ⟨d, d', found, found', twin⟩ := twins.module.defs same
  unfold conditionOf
  rw [found, found']
  cases twin with
  | inst name type twin =>
    cases twin with
    | call callee args single =>
      dsimp only
      rw [twins.module.calleeName_eq callee]
      exact condition_both twins _ args single
    | arith | icmp | gep | cast | select | phi | extractValue | other => exact .throw
  | param | term | block | const | global | func | attributed => exact .throw

/-- **What is asked about twins is a pair.** -/
theorem question_both {block call : ValueId} (blocks : R block block') (calls : R call call') :
    InStep (Side R s s') l (fun k r r' => k.Pair r.1 r'.1 ∧ k.Pair r.2.1 r'.2.1 ∧ k.Pair r.2.2 r'.2.2)
      (Check.question s block call) (Check.question s' block' call') := by
  unfold Check.question
  refine (conditionOf_both twins calls).bind fun k _ bug bug' first => ?_
  refine (path_both twins blocks).bind fun k within reach reach' second => ?_
  have first := within.pairs first
  refine (call_both (.binary _ (.inl first) (.inl second))).bind fun k within both both' third => ?_
  exact .pure fun _ more => ⟨more.pairs (within.pairs first), more.pairs (within.pairs second), more.pairs third⟩

end Twins

end Faultline.Analysis
