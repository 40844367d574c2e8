/-
# Proofs.Instrument.Growth — what instrumentation adds to a module

The values that are added are guards, the integers they compare with, and sentinels
with their parameters; functions that are added are sentinels without a body
(`Grown`). All but the guards have names, so adding them leaves no number out of
order.

An integer of one bit is zero or one, with one exception: where truth values are
divided with sign, the divisor is compared with minus one (`DividesTruths`).
-/
import Faultline.Proofs.Instrument.Labels
import Faultline.Proofs.Instrument.Numbering

namespace Faultline.IR

def Module.HasPlainTruths (m : Module) : Prop :=
  ∀ v t n, m.get? v = some (.const t (.int n)) → m.resolve t = .int 1 → n = 0 ∨ n = 1

/-- No two globals have the same name. -/
def Module.HasDistinctNames (m : Module) : Prop :=
  (m.globalIds.filterMap fun v => (m.get? v).bind Def.global?).Nodup

end Faultline.IR

namespace Faultline.Instrument

open IR (Module ValueId Func Block Def Inst Ty Name)
open Faultline.Flow (Graph)
open Text (utf8)
open List Array

variable {m c c' before : Module} {g : Graph} {f : Func} {v : ValueId} {h : Hazard} {s s' : Draft} {i : Nat}
  {d e : Def ValueId} {α β : Type} {vs : List ValueId} {bs bs' : List Block} {p p' : Progress} {n : Int} {t : Ty}

/-- Somewhere truth values are divided with sign. -/
def DividesTruths (m : Module) : Prop :=
  ∃ f ∈ m.funcs, ∃ b ∈ f.blocks, ∃ v ∈ b.insts, ∃ name type flags x y trail,
    m.get? v = some (.inst name type (.arith .sdiv flags x y) trail) ∧ m.resolve (m.typeOf x) = .int 1

/-- Values that instrumentation adds. -/
inductive Added (m : Module) : Def ValueId → Prop where
  | param (name : Text.Bytes) (t : Ty) : Added m (.param (.named name) t)
  | func (name : Text.Bytes) (params : List Ty) : Added m (.func (.named name) (.pointer (.func .void params false) 0))
  | int {t : Ty} {n : Int} (truth : ¬ DividesTruths m → m.resolve t = .int 1 → n = 0 ∨ n = 1) : Added m (.const t (.int n))
  | inst (name : Name) (t : Ty) (i : Inst ValueId) : Added m (.inst name t i [])

lemma Added.of_bare (added : Added m d) (same : e.bare = d.bare) : Added m e := by
  cases added with
  | param name t =>
    rw [Def.eq_of_bare (by simp [Def.local?]) same]
    exact .param name t
  | func name params =>
    rw [Def.eq_of_bare (by simp [Def.local?]) same]
    exact .func name params
  | int truth =>
    rw [Def.eq_of_bare (by simp [Def.local?]) same]
    exact .int truth
  | inst name t i =>
    obtain ⟨n, rfl⟩ := Def.setName_of_bare same
    exact .inst n t i

/-- The function is declared, with names for its parameters. -/
def Declared (c : Module) (f : Func) : Prop :=
  ∃ params : List ValueId, f = { id := f.id, name := f.name, result := .void, params := params.map fun v => ⟨v, ""⟩ } ∧
    (∃ t, c.get? f.id = some (.func (.named f.name) t)) ∧ ∀ v ∈ params, ∃ name t, c.get? v = some (.param (.named name) t)

/-- What has been added to `m`. -/
structure Grown (m c : Module) : Prop where
  size : m.defs.size ≤ c.defs.size
  count : m.funcs.size ≤ c.funcs.size
  values : ∀ v d, m.defs.size ≤ v → c.get? v = some d → Added m d
  funcs : ∀ i f', m.funcs.size ≤ i → c.funcs[i]? = some f' → Declared c f'

lemma Declared.alike (declared : Declared c f) (alike : c.Alike c') : Declared c' f := by
  obtain ⟨params, same, ⟨t, found⟩, each⟩ := declared
  refine ⟨params, same, ⟨t, alike.global found rfl⟩, fun v mem => ?_⟩
  obtain ⟨name, t, found⟩ := each v mem
  obtain ⟨e, there, bare⟩ := alike.get? found
  rw [Def.eq_of_bare (by simp [Def.local?]) bare] at there
  exact ⟨name, t, there⟩

lemma grown_refl (m : Module) : Grown m m := by
  refine ⟨le_refl _, le_refl _, fun v d beyond found => ?_, fun i f' beyond found => ?_⟩
  · exact absurd (IR.Module.lt_size_of_get? found) (Nat.not_lt.2 beyond)
  · exact absurd (Array.getElem?_eq_some_iff.1 found).1 (Nat.not_lt.2 beyond)

/-- Other numbers and other functions of `m` are nothing new. -/
lemma Grown.of_alike (grown : Grown m c) (alike : c.Alike c') (size : c'.defs.size = c.defs.size)
    (count : c'.funcs.size = c.funcs.size) (funcs : ∀ i, m.funcs.size ≤ i → c'.funcs[i]? = c.funcs[i]?) : Grown m c' := by
  refine ⟨grown.size.trans size.ge, grown.count.trans count.ge, fun v d beyond found => ?_, fun i f' beyond found => ?_⟩
  · have inside : v < c.defs.size := (IR.Module.lt_size_of_get? found).trans_le size.le
    obtain ⟨e, there, bare⟩ := alike.get? (Array.getElem?_eq_getElem inside)
    cases found.symm.trans there
    exact (grown.values v _ beyond (Array.getElem?_eq_getElem inside)).of_bare bare
  · rw [funcs i beyond] at found
    exact (grown.funcs i f' beyond found).alike alike

lemma Grown.push (grown : Grown m c) (added : Added m d) : Grown m { c with defs := c.defs.push d } := by
  obtain ⟨extends_, -⟩ := c.extends_push d
  refine ⟨grown.size.trans extends_.size, grown.count, fun v e beyond found => ?_, fun i f' beyond found => ?_⟩
  · have found : (c.defs.push d)[v]? = some e := found
    rw [getElem?_push] at found
    split at found
    · cases found
      exact added
    · exact grown.values v e beyond found
  · exact (grown.funcs i f' beyond found).alike extends_.alike

lemma Grown.declare (grown : Grown m c) (declared : Declared c f) : Grown m { c with funcs := c.funcs.push f } := by
  have same : c.Alike { c with funcs := c.funcs.push f } := ⟨rfl, le_refl _, fun _ _ => rfl⟩
  refine ⟨grown.size, by simpa using grown.count.trans (Nat.le_succ _), grown.values, fun i f' beyond found => ?_⟩
  have found : (c.funcs.push f)[i]? = some f' := found
  rw [getElem?_push] at found
  split at found
  · cases found
    exact declared.alike same
  · exact (grown.funcs i f' beyond found).alike same

/-! ## Guards -/

/-- A draft of `m` with what has been added, under names that differ. -/
structure Spread (m : Module) (s : Draft) : Prop where
  grown : Grown m s.module
  labels : Labelled m s

def Spreads (m : Module) (work : Insert α) : Prop :=
  ∀ s, Spread m s → Ends s work (fun _ s' => Spread m s') fun _ _ => True

namespace Spreads

lemma bind {work : Insert α} {next : α → Insert β} (first : Spreads m work) (rest : ∀ r, Spreads m (next r)) :
    Spreads m (work >>= next) :=
  fun s spread => (first s spread).bind fun r s' spread => rest r s' spread

lemma pure (r : α) : Spreads m (Pure.pure r) :=
  fun _ spread => Ends.pure spread

lemma throw (e : Fault) : Spreads m (MonadExcept.throw e : Insert α) :=
  fun _ _ => Ends.throw trivial

lemma lift (answer : Except Fault α) : Spreads m (liftM answer) := by
  intro s spread
  cases answer with
  | error e => exact trivial
  | ok r => exact spread

end Spreads

lemma newValue_bind {next : ValueId → Insert α} {Q : α → Draft → Prop} {E : Fault → Draft → Prop}
    (rest : Ends { s with module := { s.module with defs := s.module.defs.push d } } (next s.module.defs.size) Q E) :
    Ends s (newValue d >>= next) Q E :=
  Ends.bind (Q := fun v s' => v = s.module.defs.size ∧ s' = { s with module := { s.module with defs := s.module.defs.push d } })
    ⟨rfl, rfl⟩ (by rintro v s' ⟨rfl, rfl⟩; exact rest)

lemma Spread.push (spread : Spread m s) (added : Added m d) :
    Spread m { s with module := { s.module with defs := s.module.defs.push d } } :=
  ⟨spread.grown.push added, spread.labels.of_same rfl rfl⟩

lemma newValue_spreads (added : Added m d) : Spreads m (newValue d) :=
  fun _ spread => spread.push added

-- Elaborating a term against `Spreads m work` would otherwise run `work`.
attribute [irreducible] Spreads

lemma newParams_ends {δ : Type} {make : δ → Def ValueId} (isParam : ∀ x, ∃ name t, make x = .param (.named name) t)
    (xs : List δ) (spread : Spread m s) :
    Ends s (xs.mapM fun x => newValue (make x)) (fun vs s' => Spread m s' ∧ s'.taken = s.taken ∧
      s.module.Extends s'.module ∧ ∀ v ∈ vs, ∃ name t, s'.module.get? v = some (.param (.named name) t))
      fun _ _ => True := by
  induction xs generalizing s with
  | nil => exact Ends.pure ⟨spread, rfl, .refl _, by simp⟩
  | cons x xs ih =>
    obtain ⟨name, t, param⟩ := isParam x
    obtain ⟨extends₁, there⟩ := s.module.extends_push (make x)
    rw [mapM_cons]
    refine newValue_bind (Ends.bind (ih (spread.push (param ▸ .param name t))) fun vs s₂ rest => Ends.pure ?_)
    obtain ⟨spread₂, taken, extends₂, each⟩ := rest
    refine ⟨spread₂, taken, extends₁.trans extends₂, fun w mem => ?_⟩
    obtain rfl | mem := mem_cons.1 mem
    · exact ⟨name, t, extends₂.get? (param ▸ there)⟩
    · exact each w mem

lemma declare_spreads {stem : String} (known : stem ∈ [Sentinel.overflowStem, Sentinel.faultStem]) (func : Text.Bytes)
    (params : List (String × Ty)) : Spreads m (declare stem func params) := by
  unfold Spreads declare
  intro s spread
  refine Ends.get_bind ?_
  refine Ends.bind (newParams_ends (fun x => ⟨_, _, rfl⟩) params spread) fun ids s₁ made => ?_
  obtain ⟨spread₁, taken, -, each⟩ := made
  have free := freeFrom_free s.taken (utf8 (stem ++ ".") ++ func) (s.tried.getD (utf8 (stem ++ ".") ++ func) 0)
  dsimp only
  generalize freeFrom s.taken (utf8 (stem ++ ".") ++ func) _ _ = n at free ⊢
  refine newValue_bind (Ends.modify_bind (Ends.pure ?_))
  obtain ⟨extends₂, there⟩ := s₁.module.extends_push (.func (.named (numbered (utf8 (stem ++ ".") ++ func) n))
    (.pointer (.func .void (params.map Prod.snd) false) 0))
  have spread₂ := spread₁.push (.func (numbered (utf8 (stem ++ ".") ++ func) n) (params.map Prod.snd))
  refine ⟨spread₂.grown.declare ⟨ids, rfl, ⟨_, there⟩, fun u mem => ?_⟩, ?_⟩
  · obtain ⟨name, t, found⟩ := each u mem
    exact ⟨name, t, extends₂.get? found⟩
  · rw [← taken] at free
    refine spread₂.labels.push known ?_ free rfl rfl
    rw [numbered, List.append_assoc]
    exact prefix_append _ _

lemma newInst_spreads (t : Ty) (i : Inst ValueId) : Spreads m (newInst t i) :=
  newValue_spreads (.inst _ t i)

lemma newInt_spreads (truth : ¬ DividesTruths m → m.resolve t = .int 1 → n = 0 ∨ n = 1) :
    Spreads m (newInt t n) :=
  newValue_spreads (.int truth)

lemma compareInt_spreads (op : Formula.Compare) (x : ValueId)
    (truth : ¬ DividesTruths m → m.resolve t = .int 1 → n = 0 ∨ n = 1) : Spreads m (compareInt op x t n) := by
  unfold compareInt
  exact (newInt_spreads truth).bind fun k => newInst_spreads _ _

lemma faultCall_spreads (func : Text.Bytes) (cond : ValueId) : Spreads m (faultCall func cond) := by
  unfold faultCall call
  exact (declare_spreads (by simp) func _).bind fun callee => newInst_spreads _ _

def Hazard.Occurs (m : Module) : Hazard → Prop
  | .overflow _ _ _ _ _ | .zeroDivisor _ _ => True
  | .shift t bits _ => m.resolve t = .int bits
  | .signedDivision t bits _ _ => m.resolve t = .int bits ∧ (bits = 1 → DividesTruths m)

lemma guard_spreads (func : Text.Bytes) (occurs : h.Occurs m) : Spreads m (guard func h) := by
  have zero (t : Ty) : ¬ DividesTruths m → m.resolve t = .int 1 → (0 : Int) = 0 ∨ (0 : Int) = 1 := fun _ _ => .inl rfl
  cases h with
  | overflow op withSign t x y =>
    unfold guard call
    refine (declare_spreads (by simp) func _).bind fun callee => (newInt_spreads fun _ one => ?_).bind fun code => ?_
    · cases one
    · exact (newInst_spreads _ _).bind fun k => .pure _
  | shift t bits y =>
    refine (compareInt_spreads .uge y fun _ one => .inr ?_).bind fun cond => (faultCall_spreads func cond).bind fun k => .pure _
    cases (occurs : m.resolve t = .int bits).symm.trans one
    rfl
  | zeroDivisor t y =>
    exact (compareInt_spreads .eq y (zero t)).bind fun isZero => (faultCall_spreads func isZero).bind fun k => .pure _
  | signedDivision t bits x y =>
    by_cases none : bits = 0
    · subst none
      exact .throw _
    obtain ⟨int, truths⟩ := occurs
    have wide (n : Int) : ¬ DividesTruths m → m.resolve t = .int 1 → n = 0 ∨ n = 1 := by
      intro without one
      cases int.symm.trans one
      exact absurd (truths rfl) without
    rw [guard_signedDivision func t none]
    refine (compareInt_spreads .eq y (zero t)).bind fun isZero => (compareInt_spreads .eq y (wide _)).bind fun minusOne => ?_
    refine (compareInt_spreads .eq x (wide _)).bind fun least => (newInst_spreads _ _).bind fun both => ?_
    exact (newInst_spreads _ _).bind fun either => (faultCall_spreads func either).bind fun k => .pure _

/-! ## Functions -/

lemma hazardOf_cases (hazard : hazardOf m v = some h) :
    ∃ name type op flags x y trail bits, m.get? v = some (.inst name type (.arith op flags x y) trail) ∧
      m.resolve (m.typeOf x) = .int bits ∧
      ((∃ guarded, h = .overflow guarded (flags.contains "nsw") (m.typeOf x) x y) ∨ h = .shift (m.typeOf x) bits y ∨
        h = .zeroDivisor (m.typeOf x) y ∨ op = .sdiv ∧ h = .signedDivision (m.typeOf x) bits x y) := by
  unfold hazardOf at hazard
  split at hazard
  next name type i trail found =>
    cases i with
    | arith op flags x y =>
      unfold hazard? at hazard
      dsimp only at hazard
      split at hazard
      next bits int =>
        refine ⟨name, type, op, flags, x, y, trail, bits, found, int, ?_⟩
        cases op <;> cases hazard <;> simp
      next => cases hazard
    | icmp | gep | cast | select | phi | call | extractValue | other => cases hazard
  next => cases hazard

lemma occurs_of_hazardOf {b : Block} (listed : f ∈ m.funcs) (there : b ∈ f.blocks) (mem : v ∈ b.insts)
    (hazard : hazardOf m v = some h) : h.Occurs m := by
  obtain ⟨name, type, op, flags, x, y, trail, bits, found, int, ⟨_, rfl⟩ | rfl | rfl | ⟨rfl, rfl⟩⟩ := hazardOf_cases hazard
  · trivial
  · exact int
  · trivial
  · refine ⟨int, fun one => ?_⟩
    subst one
    exact ⟨f, listed, b, there, v, mem, name, type, flags, x, y, trail, found, int⟩

lemma guardsOf_spreads (alike : m.Alike before) (closed : m.Closed) (inside : v < m.defs.size)
    (occurs : ∀ h, hazardOf m v = some h → h.Occurs m) : Spreads m (guardsOf before g v) := by
  rw [guardsOf_eq, Alike.hazardOf_eq alike closed inside]
  rcases hazard : hazardOf m v with _ | h
  · exact .pure _
  · have guarding : Spreads m (do pure (← guard g.func.name h, h.tally)) :=
      (guard_spreads g.func.name (occurs h hazard)).bind fun group => .pure _
    dsimp only
    split
    · refine (Spreads.lift _).bind fun b => ?_
      cases b with
      | true => exact guarding
      | false => exact .pure _
    · exact guarding

lemma insts_spread (alike : m.Alike before) (closed : m.Closed) (inside : ∀ v ∈ vs, v < m.defs.size)
    (occurs : ∀ v ∈ vs, ∀ h, hazardOf m v = some h → h.Occurs m) : Spreads m (insts before g vs) := by
  induction vs with
  | nil => exact .pure _
  | cons v vs ih =>
    have first := guardsOf_spreads (g := g) alike closed (inside v mem_cons_self) (occurs v mem_cons_self)
    have rest := ih (fun u mem => inside u (mem_cons_of_mem v mem)) fun u mem => occurs u (mem_cons_of_mem v mem)
    unfold insts
    exact first.bind fun r => rest.bind fun r' => .pure _

lemma blocks_spread (alike : m.Alike before) (closed : m.Closed) (listed : f ∈ m.funcs) (part : ∀ b ∈ bs, b ∈ f.blocks)
    (spread : Spread m s) {t : InsertTally} (run : blocks before g bs s = ((bs', .ok t), s')) : Spread m s' := by
  induction bs generalizing s bs' t with
  | nil =>
    cases run
    exact spread
  | cons b bs ih =>
    have there : b ∈ f.blocks := part b mem_cons_self
    have inside : ∀ v ∈ b.insts.toList, v < m.defs.size := fun v mem =>
      blockLocals_lt closed listed (mem_toList_iff.2 there) (mem_cons_of_mem _ (List.mem_append_left _ mem))
    have first : Spreads m (insts before g b.insts.toList) :=
      insts_spread alike closed inside fun v mem h => occurs_of_hazardOf listed there (mem_toList_iff.1 mem)
    unfold Spreads at first
    rcases blocks_cons_cases run with ⟨e, -, -, refused⟩ | ⟨new, tally, rest, ts, s₁, one, two, -, counted⟩
    · cases refused
    · obtain ⟨ts, rfl⟩ : ∃ u, ts = .ok u := by
        cases ts with
        | error e => cases counted
        | ok u => exact ⟨u, rfl⟩
      exact ih (fun b mem => part b (mem_cons_of_mem _ mem)) ((first s spread).ok one) two

lemma spread_start (m : Module) : Spread m (.ofModule m) :=
  ⟨grown_refl m, labelled_start m⟩

lemma Spread.step (closed : m.Closed) (reached : Reached m i p) (spread : Spread m p.draft) (found : m.funcs[i]? = some f)
    (run : function i p = (.ok (), p')) : Spread m p'.draft := by
  have listed : f ∈ m.funcs := Array.mem_of_getElem? found
  have below : i < m.funcs.size := (Array.getElem?_eq_some_iff.1 found).1
  obtain ⟨g, bs, t, d, stepped⟩ := reached.stepped closed found run
  have spread : Spread m d :=
    blocks_spread reached.layout.alike closed listed (fun b mem => mem_toList_iff.1 mem) spread stepped.run
  have later : ∀ j, m.funcs.size ≤ j → p'.draft.module.funcs[j]? = d.module.funcs[j]? := by
    intro j beyond
    rw [stepped.funcs, getElem?_setIfInBounds_ne (Nat.ne_of_lt (below.trans_le beyond))]
  refine ⟨spread.grown.of_alike stepped.alike stepped.size ?_ later,
    spread.labels.of_same stepped.taken (stepped.map_funcs (reached.untouched found) Func.name rfl)⟩
  rw [stepped.funcs, size_setIfInBounds]

/-! ## Calls -/

def newLocals (m c : Module) (k : Nat) : List ValueId :=
  ((c.funcs.toList.take k).flatMap Func.locals).filter (m.defs.size ≤ ·)

lemma newLocals_succ {k : Nat} (there : c.funcs[k]? = some f) :
    newLocals m c (k + 1) = newLocals m c k ++ f.locals.filter (m.defs.size ≤ ·) := by
  simp [newLocals, take_succ there]

lemma old_locals (closed : m.Closed) (listed : f ∈ m.funcs) : f.locals.filter (m.defs.size ≤ ·) = [] := by
  rw [filter_eq_nil_iff]
  intro v mem
  simpa using closed.locals f listed v mem

lemma newLocals_skip (closed : m.Closed) (reached : Reached m i p)
    (adds : Adds m p.draft.module (newLocals m p.draft.module i)) (found : m.funcs[i]? = some f) :
    Adds m p.draft.module (newLocals m p.draft.module (i + 1)) := by
  rw [newLocals_succ (reached.untouched found), old_locals closed (Array.mem_of_getElem? found), append_nil]
  exact adds

/-- Each function adds calls of what it declares. -/
lemma newLocals_step (closed : m.Closed) (reached : Reached m i p)
    (adds : Adds m p.draft.module (newLocals m p.draft.module i)) (found : m.funcs[i]? = some f)
    (run : function i p = (.ok (), p')) : Adds m p'.draft.module (newLocals m p'.draft.module (i + 1)) := by
  have listed : f ∈ m.funcs := Array.mem_of_getElem? found
  obtain ⟨g, bs, t, d, stepped⟩ := reached.stepped closed found run
  obtain ⟨-, adds', -⟩ := stepped.wove.done t rfl
  have earlier : newLocals m p'.draft.module i = newLocals m p.draft.module i := by
    unfold newLocals
    congr 2
    refine List.ext_getElem? fun j => ?_
    rw [getElem?_take, getElem?_take, getElem?_toList, getElem?_toList]
    split
    next less => exact stepped.others reached (less.trans (Array.getElem?_eq_some_iff.1 found).1) less.ne
    next => rfl
  have mine : ({ f with blocks := bs.toArray } : Func).locals.filter (m.defs.size ≤ ·) =
      (bs.flatMap blockLocals).filter (m.defs.size ≤ ·) := by
    have params := append_eq_nil_iff.1 ((List.filter_append _ _).symm.trans (old_locals closed listed))
    exact (List.filter_append _ _).trans (by rw [params.1]; rfl)
  rw [newLocals_succ stepped.mine, earlier, mine]
  exact (adds.append stepped.wove.extends_ adds').alike stepped.alike stepped.size
    (stepped.map_funcs (reached.untouched found) Func.id rfl)

end Faultline.Instrument
