/-
# Proofs.Twin.Lookup — twins are looked up alike

Values are looked up in tables of different sizes, so the depths that the engine
allows itself differ. That makes no difference: a value that is demanded without end
is refused in either module (`grounded_twin`), and for any other value both depths
are enough (`Deep`), as the values on the way to it are all different and have
definitions.
-/
import Faultline.Proofs.Analysis.Express
import Faultline.Proofs.Twin.Value

namespace Faultline.Analysis

open IR (Module ValueId Inst)
open Formula (Arena Handle Links truncate widthLimit)
open List Formula

variable {R : ValueId → ValueId → Prop} {s s' : Setting} {l : Links} {v v' : ValueId} {b : Bench} {depth depth' : Nat}
  {n : Int} {matched : ValueId → Prop}

/-! ## Demands -/

lemma forall₂_filter {α α' : Type} {Q : α → α' → Prop} {p : α → Bool} {p' : α' → Bool} {xs : List α} {xs' : List α'}
    (pairs : Forall₂ (fun x x' => Q x x' ∧ p' x' = p x) xs xs') : Forall₂ Q (xs.filter p) (xs'.filter p') := by
  induction pairs with
  | nil => exact .nil
  | cons here _ ih =>
    rw [filter_cons, filter_cons, here.2]
    split
    · exact .cons here.1 ih
    · exact ih

section Twins

variable (twins : s.Twins R s')

include twins

lemma indices_twin {base base' : ValueId} {indices indices' : List ValueId} (first : R base base')
    (rest : Forall₂ R indices indices') :
    Forall₂ (s.module.Like R s'.module) (base :: indices.filter (isComputed s.module))
      (base' :: indices'.filter (isComputed s'.module)) :=
  .cons (.inl first) (forall₂_filter (rest.imp fun _ _ same => ⟨.inl same, isComputed_twin twins same⟩))

lemma instDemands_twin {i i' : Inst ValueId} (twin : i.Twin R (s.module.Like R s'.module) i') :
    Forall₂ (s.module.Like R s'.module) (instDemands s i) (instDemands s' i') := by
  cases twin with
  | arith op flags first second => exact .cons first (.cons second .nil)
  | icmp pred first second =>
    cases pred with
    | known op => exact .cons first (.cons second .nil)
    | unknown => exact .nil
  | gep inbounds elem base indices => exact indices_twin twins base indices
  | cast op target operand =>
    cases op with
    | bitcast =>
      unfold instDemands
      dsimp only
      rw [widthOf_twin twins operand]
      split
      · exact .cons (.inl operand) .nil
      · exact .nil
    | trunc | zext | sext | ptrtoint | inttoptr => exact .cons (.inl operand) .nil
    | fptrunc | fpext | fptoui | fptosi | uitofp | sitofp | addrspacecast => exact .nil
  | select flags cond onTrue onFalse => exact .cons (.inl cond) (.cons (.inl onTrue) (.cons (.inl onFalse) .nil))
  | phi | call | extractValue | other => exact .nil

lemma demands_twin (like : s.module.Like R s'.module v v') :
    Forall₂ (s.module.Like R s'.module) (demands s v) (demands s' v') := by
  obtain same | ⟨bits, n, spare, spare'⟩ := like
  · obtain ⟨d, d', found, found', twin⟩ := twins.module.defs same
    unfold demands
    rw [widthOf_twin twins same, found, found']
    split
    · cases twin with
      | inst name type twin => exact instDemands_twin twins twin
      | const t twin =>
        cases twin with
        | gep inbounds elem base indices => exact indices_twin twins base indices
        | int | null | undef | other => exact .nil
      | param | term | block | global | func | attributed => exact .nil
    · exact .nil
  · rw [demands_spare spare, demands_spare spare']
    exact .nil

lemma grounded_of_like (like : s.module.Like R s'.module v v') (grounded : Grounded s v) : Grounded s' v' := by
  induction grounded generalizing v' with
  | intro v _ ih =>
    refine .intro v' fun x' demanded' => ?_
    obtain ⟨x, demanded, like⟩ := exists_of_forall₂ (demands_twin twins like).flip demanded'
    exact ih x demanded like

lemma grounded_twin (like : s.module.Like R s'.module v v') : Grounded s v ↔ Grounded s' v' := by
  refine ⟨grounded_of_like twins like, fun grounded => ?_⟩
  induction grounded generalizing v with
  | intro v' _ ih =>
    refine .intro v fun x demanded => ?_
    obtain ⟨x', demanded', like⟩ := exists_of_forall₂ (demands_twin twins like) demanded
    exact ih x' demanded' like

end Twins

/-! ## Looking up -/

lemma lookupFrom_known {h : Handle} (known : b.formula? v = some h) (depth : Nat) :
    outcome (lookupFrom s (depth + 1) v) b = (.ok h, b) := by
  unfold lookupFrom
  rw [outcome_bind, outcome_get]
  dsimp only
  rw [show b.values.bind (List.lookup v) = some h from known]
  rfl

lemma express_spare {bits : Nat} (spare : s.module.Spare matched bits n v)
    (look : ValueId → Analyze Handle) : express s look v = build (const bits n) := by
  obtain ⟨-, t, found, type⟩ := spare
  have typed : s.module.typeOf v = t := by
    unfold Module.typeOf
    rw [found]
    rfl
  have wide : s.width? t = some bits := by
    unfold Setting.width?
    rw [type]
  unfold express
  rw [typed, wide, found]
  dsimp only
  rw [type]

lemma const_ends_iff (a : Arena) (w : Nat) (n : Int) :
    Ends a (const w n) (fun r c => (r = a.next ∧ c = a.push ⟨w, .const (truncate w n)⟩ a.names) ∧ 0 < w ∧ w < widthLimit)
      (fun _ _ => ¬ (0 < w ∧ w < widthLimit)) := by
  unfold const
  refine need_bind (fun positive => need_bind (fun narrow => ?_) fun wide fine => wide fine.2) fun thin fine => thin fine.1
  unfold add
  refine need_bind (fun _ => ?_) fun thin => (thin positive).elim
  exact Ends.get_bind (Ends.modify_bind (Ends.pure ⟨⟨rfl, rfl⟩, positive, narrow⟩))

/-- An integer that is matched with nothing becomes a constant. -/
lemma lookupFrom_spare {bits : Nat} (spare : s.module.Spare matched bits n v)
    (sound : Sound s b) (unknown : b.formula? v = none) (depth : Nat) : Ends b (lookupFrom s (depth + 1) v)
      (fun h c => (h = b.arena.next ∧ c = withConst b v bits n) ∧ 0 < bits ∧ bits < widthLimit)
      (fun _ _ => ¬ (0 < bits ∧ bits < widthLimit)) := by
  unfold lookupFrom
  refine Ends.get_bind ?_
  rw [show b.values.bind (List.lookup v) = none from unknown]
  dsimp only
  rw [express_spare spare]
  refine Ends.bind (Ends.build (const_ends_iff b.arena bits n) |>.blame fun _ _ h => h.2) fun r c h => ?_
  obtain ⟨same, ⟨rfl, pushed⟩, fine⟩ := h
  rw [pushed] at same
  subst same
  obtain ⟨entries, open_⟩ := sound.open_
  refine Ends.get_bind ?_
  rw [show (Bench.mk _ b.values b.paths b.log).values = some entries from open_]
  exact Ends.modify_bind (Ends.pure ⟨⟨rfl, by simp [withConst, Bench.enter, open_]⟩, fine⟩)

lemma spare_both {bits : Nat} (spare : s.module.Spare (fun x => ∃ x', R x x') bits n v)
    (spare' : s'.module.Spare (fun x' => ∃ x, R x x') bits n v') (depth depth' : Nat) :
    InStep (Side R s s') l Links.Alike (lookupFrom s (depth + 1) v) (lookupFrom s' (depth' + 1) v') := by
  intro k b b' _ side
  rcases known : b.formula? v with _ | h <;> rcases known' : b'.formula? v' with _ | h'
  · have left := lookupFrom_spare spare side.ofLeft known depth
    have right := lookupFrom_spare spare' side.ofRight known' depth'
    by_cases fine : 0 < bits ∧ bits < widthLimit
    · obtain ⟨h, c, run, ⟨rfl, rfl⟩, -⟩ := (left.blame fun _ _ refused => refused fine).exists_ok
      obtain ⟨h', c', run', ⟨rfl, rfl⟩, -⟩ := (right.blame fun _ _ refused => refused fine).exists_ok
      refine Abreast.of_ok run run' ⟨_, ?_, (side.withLeft spare fine.1 fine.2).withRight spare' fine.1 fine.2, ?_⟩
      · exact (k.within_joinLeft _ _).trans (Links.within_joinRight _ _ _)
      · exact .inr ⟨_, mem_cons_self, mem_cons_self⟩
    · obtain ⟨e, c, run⟩ := (left.imp fun _ _ h => fine h.2).exists_error
      obtain ⟨e', c', run'⟩ := (right.imp fun _ _ h => fine h.2).exists_error
      exact Abreast.of_error run run'
  · obtain ⟨mem', narrow⟩ := side.right v' bits n spare' h' known'
    have positive : 0 < bits := (side.tied.ofRight.fits (side.tied.right _ mem').1).width_pos
    have left := lookupFrom_spare spare side.ofLeft known depth
    obtain ⟨h, c, run, ⟨rfl, rfl⟩, -⟩ := (left.blame fun _ _ refused => refused ⟨positive, narrow⟩).exists_ok
    refine Abreast.of_ok run (lookupFrom_known known' depth') ⟨_, k.within_joinLeft _ _, side.withLeft spare positive narrow, ?_⟩
    exact .inr ⟨_, mem_cons_self, mem'⟩
  · obtain ⟨mem, narrow⟩ := side.left v bits n spare h known
    have positive : 0 < bits := (side.tied.ofLeft.fits (side.tied.left _ mem).1).width_pos
    have right := lookupFrom_spare spare' side.ofRight known' depth'
    obtain ⟨h', c', run', ⟨rfl, rfl⟩, -⟩ := (right.blame fun _ _ refused => refused ⟨positive, narrow⟩).exists_ok
    refine Abreast.of_ok (lookupFrom_known known depth) run' ⟨_, k.within_joinRight _ _, side.withRight spare' positive narrow, ?_⟩
    exact .inr ⟨_, mem, mem_cons_self⟩
  · refine Abreast.of_ok (lookupFrom_known known depth) (lookupFrom_known known' depth') ⟨k, .refl k, side, ?_⟩
    exact .inr ⟨_, (side.left v bits n spare h known).1, (side.right v' bits n spare' h' known').1⟩

/-- Matching values that are grounded, at depths that are enough. -/
lemma grounded_both (twins : s.Twins R s') (same : R v v') (grounded : Grounded s v) (deep : Deep s depth v)
    (deep' : Deep s' depth' v') : InStep (Side R s s') l Links.Pair (lookupFrom s depth v) (lookupFrom s' depth' v') := by
  induction depth generalizing l depth' v v' with
  | zero => exact absurd deep.pos (lt_irrefl 0)
  | succ depth ih =>
    obtain ⟨depth', rfl⟩ : ∃ d, depth' = d + 1 := ⟨depth' - 1, by have := deep'.pos; omega⟩
    have grounded' := (grounded_twin twins (.inl same)).1 grounded
    intro k b b' within side
    obtain ⟨unknown, unknown'⟩ | ⟨h, h', known, known', pair⟩ := side.known v v' same
    · have strict : ∀ x ∈ demands s v, ∀ x' ∈ demands s' v', R x x' →
          InStep (Side R s s') k Links.Pair (lookupFrom s depth x) (lookupFrom s' depth' x') :=
        fun x demanded x' demanded' match_ => ih match_ (grounded.inv demanded) (deep.next grounded.not_needs demanded)
          (deep'.next grounded'.not_needs demanded')
      have looks : Looks₂ R s s' k (lookupFrom s depth) (lookupFrom s' depth') (demands s v) (demands s' v') := by
        refine ⟨strict, fun x demanded x' demanded' like => ?_⟩
        obtain match_ | ⟨bits, n, spare, spare'⟩ := like
        · exact (strict x demanded x' demanded' match_).imp fun _ _ _ _ pair => .inl pair
        · obtain ⟨d, rfl⟩ : ∃ d, depth = d + 1 := ⟨depth - 1, by have := (deep.next grounded.not_needs demanded).pos; omega⟩
          obtain ⟨d', rfl⟩ : ∃ d, depth' = d + 1 := ⟨depth' - 1, by have := (deep'.next grounded'.not_needs demanded').pos; omega⟩
          exact spare_both spare spare' d d'
      unfold lookupFrom
      refine Abreast.get_bind ?_
      rw [show b.values.bind (List.lookup v) = none from unknown, show b'.values.bind (List.lookup v') = none from unknown']
      refine Abreast.bind (express_both twins same looks k b b' (.refl k) side) fun f c f' c' h => ?_
      obtain ⟨j, more, side, pair⟩ := h
      obtain ⟨entries, open_⟩ := side.ofLeft.open_
      obtain ⟨entries', open'⟩ := side.ofRight.open_
      refine Abreast.get_bind ?_
      rw [open_, open']
      refine Abreast.modify_bind (Abreast.pure ⟨j, more, ?_, pair⟩)
      exact side.enter twins pair same grounded grounded'
    · exact Abreast.of_ok (lookupFrom_known known depth) (lookupFrom_known known' depth') ⟨k, .refl k, side, pair⟩

/-- **Twins are looked up alike.** -/
theorem lookup_both (twins : s.Twins R s') (same : R v v') : InStep (Side R s s') l Links.Pair (lookup s v) (lookup s' v') := by
  by_cases grounded : Grounded s v
  · exact grounded_both twins same grounded (.start (Nat.lt_succ_self _)) (.start (Nat.lt_succ_self _))
  · intro k b b' _ side
    obtain ⟨e, c, run⟩ := lookupFrom_refused grounded side.ofLeft (s.module.defs.size + 1)
    obtain ⟨e', c', run'⟩ := lookupFrom_refused (fun grounded' => grounded ((grounded_twin twins (.inl same)).2 grounded'))
      side.ofRight (s'.module.defs.size + 1)
    exact Abreast.of_error run run'

lemma lookup_like (twins : s.Twins R s') (like : s.module.Like R s'.module v v') :
    InStep (Side R s s') l Links.Alike (lookup s v) (lookup s' v') := by
  obtain same | ⟨bits, n, spare, spare'⟩ := like
  · exact (lookup_both twins same).imp fun _ _ _ _ pair => .inl pair
  · exact spare_both spare spare' _ _

lemma value_both (twins : s.Twins R s') (same : R v v') : InStep (Side R s s') l Links.Pair (value s v) (value s' v') :=
  (lookup_both twins same).bind fun _ _ _ _ pair => retain_both pair

end Faultline.Analysis
