/-
# Proofs.Instrument.Guards — what is inserted before an instruction

Inserting only adds: new values, and declarations of functions (`Module.Extends`).
`Guards c h group` says which instructions of the module `c` guard against a hazard:
comparisons where there are any, and a call of a sentinel as the last. `guard`
builds such a group out of new values (`guard_builds`); it is refused only where
there is no least number.
-/
import Faultline.Proofs.Instrument.Alike
import Faultline.Proofs.Outcome

namespace Faultline.IR

namespace Module

variable {m c c' : Module} {v : ValueId}

/-- Values and declarations of functions have been added. -/
structure Extends (m c : Module) : Prop where
  rest : c = { m with funcs := c.funcs, defs := c.defs }
  size : m.defs.size ≤ c.defs.size
  values : ∀ v < m.defs.size, c.get? v = m.get? v
  funcs : ∃ decls : List Func, c.funcs.toList = m.funcs.toList ++ decls ∧ ∀ f ∈ decls, f.blocks = #[]

lemma Extends.refl (m : Module) : m.Extends m :=
  ⟨rfl, le_refl _, fun _ _ => rfl, [], by simp⟩

lemma Extends.trans (first : m.Extends c) (second : c.Extends c') : m.Extends c' := by
  refine ⟨?_, first.size.trans second.size, fun v inside => ?_, ?_⟩
  · rw [second.rest, first.rest]
  · exact (second.values v (inside.trans_le first.size)).trans (first.values v inside)
  · obtain ⟨decls, same, empty⟩ := first.funcs
    obtain ⟨decls', same', empty'⟩ := second.funcs
    refine ⟨decls ++ decls', by rw [same', same, List.append_assoc], fun f mem => ?_⟩
    rcases List.mem_append.1 mem with old | new
    · exact empty f old
    · exact empty' f new

lemma Extends.alike (extends_ : m.Extends c) : m.Alike c :=
  ⟨extends_.rest, extends_.size, fun v inside => by rw [extends_.values v inside]⟩

lemma Extends.get? (extends_ : m.Extends c) {d : Def ValueId} (found : m.get? v = some d) : c.get? v = some d :=
  (extends_.values v (lt_size_of_get? found)).trans found

lemma Extends.func? (extends_ : m.Extends c) {i : Nat} {f : Func} (there : m.funcs[i]? = some f) :
    c.funcs[i]? = some f := by
  obtain ⟨decls, added, -⟩ := extends_.funcs
  rw [← Array.getElem?_toList] at there ⊢
  rw [added, List.getElem?_append_left (List.getElem?_eq_some_iff.1 there).1, there]

lemma Extends.func?_cases (extends_ : m.Extends c) {i : Nat} {f : Func} (there : c.funcs[i]? = some f) :
    m.funcs[i]? = some f ∨ f.blocks = #[] := by
  obtain ⟨decls, added, empty⟩ := extends_.funcs
  rw [← Array.getElem?_toList, added] at there
  by_cases old : i < m.funcs.toList.length
  · rw [List.getElem?_append_left old, Array.getElem?_toList] at there
    exact .inl there
  · rw [List.getElem?_append_right (Nat.le_of_not_lt old)] at there
    exact .inr (empty f (List.mem_of_getElem? there))

lemma extends_push (m : Module) (d : Def ValueId) :
    m.Extends { m with defs := m.defs.push d } ∧ ({ m with defs := m.defs.push d } : Module).get? m.defs.size = some d := by
  refine ⟨⟨rfl, by simp, fun v inside => ?_, [], by simp⟩, Array.getElem?_push_size⟩
  exact Array.getElem?_push_lt inside |>.trans (Array.getElem?_eq_getElem inside).symm

end Module

end Faultline.IR

namespace Faultline.Instrument

open IR (Module ValueId Func Def Inst Ty Name trueId falseId)
open Faultline.Flow (Graph)
open Text (utf8)
open List

variable {m c c' : Module} {v x y : ValueId} {s : Draft} {α β : Type}

/-! ## Adding -/

def funcIds (c : Module) : List ValueId :=
  c.funcs.toList.map Func.id

/-- What is done only adds to the module; what is returned satisfies `Q`, and a refusal `E`. -/
def Builds (E : Fault → Prop) (s : Draft) (work : Insert α) (Q : α → Module → Prop) : Prop :=
  Ends s work (fun r s' => s.module.Extends s'.module ∧ Q r s'.module)
    (fun e s' => s.module.Extends s'.module ∧ E e)

variable {E E' : Fault → Prop}

namespace Builds

variable {work : Insert α} {next : α → Insert β} {Q Q' : α → Module → Prop} {R : β → Module → Prop}

lemma ends (builds : Builds E s work Q) :
    Ends s work (fun r s' => s.module.Extends s'.module ∧ Q r s'.module)
      (fun e s' => s.module.Extends s'.module ∧ E e) :=
  builds

lemma bind (first : Builds E s work Q)
    (rest : ∀ r s', s.module.Extends s'.module → Q r s'.module → Builds E s' (next r) R) :
    Builds E s (work >>= next) R := by
  unfold Builds
  refine Ends.bind first fun r s' h => ?_
  exact (rest r s' h.1 h.2).mono (fun _ _ h' => ⟨h.1.trans h'.1, h'.2⟩) fun _ _ h' => ⟨h.1.trans h'.1, h'.2⟩

lemma pure {r : α} (holds : Q r s.module) : Builds E s (Pure.pure r) Q :=
  Ends.pure ⟨.refl _, holds⟩

lemma throw {fault : Fault} (holds : E fault) : Builds E s (MonadExcept.throw fault) Q :=
  Ends.throw ⟨.refl _, holds⟩

lemma mono (builds : Builds E s work Q) (holds : ∀ r c, s.module.Extends c → Q r c → Q' r c) :
    Builds E s work Q' :=
  Ends.imp builds fun r _ h => ⟨h.1, holds r _ h.1 h.2⟩

lemma refusals (builds : Builds E s work Q) (holds : ∀ e, E e → E' e) : Builds E' s work Q :=
  Ends.blame builds fun e _ h => ⟨h.1, holds e h.2⟩

lemma get_bind {next : Draft → Insert β} (rest : Builds E s (next s) R) : Builds E s (get >>= next) R :=
  Ends.get_bind rest

lemma modify_bind {change : Draft → Draft} {next : Unit → Insert β} (extends_ : s.module.Extends (change s).module)
    (rest : Builds E (change s) (next ()) R) : Builds E s (modify change >>= next) R :=
  Ends.modify_bind (Ends.mono rest (fun _ _ h => ⟨extends_.trans h.1, h.2⟩) fun _ _ h => ⟨extends_.trans h.1, h.2⟩)

end Builds

lemma newValue_builds (d : Def ValueId) (s : Draft) :
    Builds E s (newValue d) fun v c => s.module.defs.size ≤ v ∧ c.get? v = some d ∧ funcIds c = funcIds s.module := by
  obtain ⟨extends_, there⟩ := s.module.extends_push d
  exact ⟨extends_, le_refl _, there, rfl⟩

-- Elaborating a term against `Builds E s work Q` would otherwise run `work`.
attribute [irreducible] Builds

def IsInst (c : Module) (v : ValueId) (t : Ty) (i : Inst ValueId) : Prop :=
  ∃ name, c.get? v = some (.inst name t i [])

def IsInt (c : Module) (v : ValueId) (t : Ty) (n : Int) : Prop :=
  c.get? v = some (.const t (.int n))

def IsSentinel (c : Module) (stem : String) (v : ValueId) : Prop :=
  ∃ name type, c.get? v = some (.func (.named name) type) ∧ utf8 (stem ++ ".") <+: name

lemma newInst_builds (t : Ty) (i : Inst ValueId) (s : Draft) :
    Builds E s (newInst t i) fun v c => s.module.defs.size ≤ v ∧ IsInst c v t i ∧ funcIds c = funcIds s.module :=
  (newValue_builds _ s).mono fun _ _ _ h => ⟨h.1, ⟨_, h.2.1⟩, h.2.2⟩

lemma newInt_builds (t : Ty) (n : Int) (s : Draft) :
    Builds E s (newInt t n) fun v c => s.module.defs.size ≤ v ∧ IsInt c v t n ∧ funcIds c = funcIds s.module :=
  newValue_builds _ s

lemma mapM_newValue_builds {δ : Type} (make : δ → Def ValueId) (ds : List δ) (s : Draft) :
    Builds E s (ds.mapM fun d => newValue (make d)) fun _ c => funcIds c = funcIds s.module := by
  induction ds generalizing s with
  | nil => exact Builds.pure rfl
  | cons d ds ih =>
    rw [mapM_cons]
    refine Builds.bind (newValue_builds _ s) fun v s₁ _ h => ?_
    exact Builds.bind (ih s₁) fun vs s₂ _ same => Builds.pure (same.trans h.2.2)

lemma extends_declare (m : Module) {decl : Func} (empty : decl.blocks = #[]) :
    m.Extends { m with funcs := m.funcs.push decl } :=
  ⟨rfl, le_refl _, fun _ _ => rfl, [decl], by simp, by simpa using empty⟩

lemma declare_builds (stem : String) (func : Text.Bytes) (params : List (String × Ty)) (s : Draft) :
    Builds E s (declare stem func params) fun v c => s.module.defs.size ≤ v ∧ IsSentinel c stem v ∧
      funcIds c = funcIds s.module ++ [v] := by
  unfold declare
  refine Builds.get_bind ?_
  refine Builds.bind (mapM_newValue_builds _ params s) fun ids s₁ extends₁ same => ?_
  refine Builds.bind (newValue_builds _ s₁) fun v s₂ extends₂ h => ?_
  obtain ⟨above, there, same'⟩ := h
  refine Builds.modify_bind (extends_declare s₂.module rfl)
    (Builds.pure ⟨extends₁.size.trans above, ⟨_, _, there, ?_⟩, ?_⟩)
  · rw [numbered, append_assoc]
    exact prefix_append _ _
  · rw [← same, ← same']
    simp [funcIds]

/-! ## Guards -/

/-- The values rise strictly, from a bound on and below another one. -/
def Rises : Nat → Nat → List ValueId → Prop
  | lo, hi, [] => lo ≤ hi
  | lo, hi, v :: vs => lo ≤ v ∧ Rises (v + 1) hi vs

lemma Rises.le {lo hi : Nat} {vs : List ValueId} (rises : Rises lo hi vs) : lo ≤ hi := by
  induction vs generalizing lo with
  | nil => exact rises
  | cons v vs ih =>
    obtain ⟨above, rest⟩ := rises
    have := ih rest
    omega

lemma Rises.append {lo mid hi : Nat} {us vs : List ValueId} (first : Rises lo mid us) (second : Rises mid hi vs) :
    Rises lo hi (us ++ vs) := by
  induction us generalizing lo with
  | nil =>
    cases vs with
    | nil => exact Nat.le_trans first second
    | cons v vs => exact ⟨Nat.le_trans first second.1, second.2⟩
  | cons u us ih => exact ⟨first.1, ih first.2⟩

lemma Rises.mem {lo hi : Nat} {vs : List ValueId} (rises : Rises lo hi vs) (mem : v ∈ vs) : lo ≤ v ∧ v < hi := by
  induction vs generalizing lo with
  | nil => cases mem
  | cons u vs ih =>
    obtain ⟨above, rest⟩ := rises
    rcases mem_cons.1 mem with rfl | later
    · exact ⟨above, rest.le⟩
    · obtain ⟨beyond, below⟩ := ih rest later
      exact ⟨above.trans ((Nat.le_succ u).trans beyond), below⟩

lemma Rises.nodup {lo hi : Nat} {vs : List ValueId} (rises : Rises lo hi vs) : vs.Nodup := by
  induction vs generalizing lo with
  | nil => exact nodup_nil
  | cons v vs ih =>
    refine nodup_cons.2 ⟨fun mem => ?_, ih rises.2⟩
    exact absurd (rises.2.mem mem).1 (Nat.not_succ_le_self v)

def calleeOf? : Inst ValueId → Option ValueId
  | .call call => some call.callee
  | _ => none

def callee? (c : Module) (v : ValueId) : Option ValueId :=
  match c.get? v with
  | some (.inst _ _ i _) => calleeOf? i
  | _ => none

lemma callee?_alike (alike : c.Alike c') (inside : v < c.defs.size) : callee? c' v = callee? c v := by
  obtain ⟨d, n, here, there⟩ := alike.renamed inside
  rw [callee?, callee?, here, there]
  cases d <;> rfl

/-- The values are new, and the calls among them are of the new functions, one of each. -/
structure Adds (m c : Module) (vs : List ValueId) : Prop where
  rises : Rises m.defs.size c.defs.size vs
  calls : funcIds c = funcIds m ++ vs.filterMap (callee? c)

lemma Adds.nil (m : Module) : Adds m m [] :=
  ⟨le_refl _, (append_nil _).symm⟩

lemma Adds.append {us vs : List ValueId} (first : Adds m c us) (extends_ : c.Extends c') (second : Adds c c' vs) :
    Adds m c' (us ++ vs) := by
  refine ⟨first.rises.append second.rises, ?_⟩
  have same : us.filterMap (callee? c') = us.filterMap (callee? c) :=
    filterMap_congr fun u mem => callee?_alike extends_.alike (first.rises.mem mem).2
  rw [second.calls, first.calls, filterMap_append, same, append_assoc]

lemma Adds.alike {vs : List ValueId} (adds : Adds m c vs) (alike : c.Alike c') (size : c'.defs.size = c.defs.size)
    (ids : funcIds c' = funcIds c) : Adds m c' vs := by
  refine ⟨size ▸ adds.rises, ids.trans (adds.calls.trans (congrArg _ (filterMap_congr fun u mem => ?_)))⟩
  exact (callee?_alike alike (adds.rises.mem mem).2).symm

/-- Instructions of `c` guard against a hazard. -/
inductive Guards (c : Module) : Hazard → List ValueId → Prop where
  | overflow {op : Sentinel.Guarded} {withSign : Bool} {t : Ty} {x y callee code call : ValueId}
      (sentinel : IsSentinel c Sentinel.overflowStem callee) (number : IsInt c code (.int 8) op.code)
      (last : IsInst c call .void
        (.call ⟨"call", .void, callee, [code, x, y, if withSign then trueId else falseId], []⟩)) :
      Guards c (.overflow op withSign t x y) [call]
  | shift {t : Ty} {bits : Nat} {y n cond callee call : ValueId}
      (number : IsInt c n t bits) (compare : IsInst c cond .bool (.icmp (.known .uge) y n))
      (sentinel : IsSentinel c Sentinel.faultStem callee)
      (last : IsInst c call .void (.call ⟨"call", .void, callee, [cond], []⟩)) :
      Guards c (.shift t bits y) [cond, call]
  | zeroDivisor {t : Ty} {y n isZero callee call : ValueId}
      (number : IsInt c n t 0) (compare : IsInst c isZero .bool (.icmp (.known .eq) y n))
      (sentinel : IsSentinel c Sentinel.faultStem callee)
      (last : IsInst c call .void (.call ⟨"call", .void, callee, [isZero], []⟩)) :
      Guards c (.zeroDivisor t y) [isZero, call]
  | signedDivision {t : Ty} {bits : Nat} {x y n isZero k minusOne l least both either callee call : ValueId}
      (zero : IsInt c n t 0) (compareZero : IsInst c isZero .bool (.icmp (.known .eq) y n))
      (one : IsInt c k t (-1)) (compareOne : IsInst c minusOne .bool (.icmp (.known .eq) y k))
      (lowest : IsInt c l t (-twoPow (bits - 1))) (compareLeast : IsInst c least .bool (.icmp (.known .eq) x l))
      (conjunction : IsInst c both .bool (.arith .and [] minusOne least))
      (disjunction : IsInst c either .bool (.arith .or [] isZero both))
      (sentinel : IsSentinel c Sentinel.faultStem callee)
      (last : IsInst c call .void (.call ⟨"call", .void, callee, [either], []⟩)) :
      Guards c (.signedDivision t bits x y) [isZero, minusOne, least, both, either, call]

lemma IsInst.alike {t : Ty} {i : Inst ValueId} (isInst : IsInst c v t i) (alike : c.Alike c') : IsInst c' v t i := by
  obtain ⟨name, found⟩ := isInst
  exact alike.inst found

lemma IsInt.alike {t : Ty} {n : Int} (isInt : IsInt c v t n) (alike : c.Alike c') : IsInt c' v t n :=
  alike.global isInt rfl

lemma IsSentinel.alike {stem : String} (isSentinel : IsSentinel c stem v) (alike : c.Alike c') :
    IsSentinel c' stem v := by
  obtain ⟨name, type, found, begins⟩ := isSentinel
  exact ⟨name, type, alike.global found rfl, begins⟩

/-- Guards stay what they are when the module goes on to change. -/
lemma Guards.alike {h : Hazard} {group : List ValueId} (guards : Guards c h group) (alike : c.Alike c') :
    Guards c' h group := by
  cases guards with
  | overflow sentinel number last => exact .overflow (sentinel.alike alike) (number.alike alike) (last.alike alike)
  | shift number compare sentinel last =>
    exact .shift (number.alike alike) (compare.alike alike) (sentinel.alike alike) (last.alike alike)
  | zeroDivisor number compare sentinel last =>
    exact .zeroDivisor (number.alike alike) (compare.alike alike) (sentinel.alike alike) (last.alike alike)
  | signedDivision zero compareZero one compareOne lowest compareLeast conjunction disjunction sentinel last =>
    exact .signedDivision (zero.alike alike) (compareZero.alike alike) (one.alike alike) (compareOne.alike alike)
      (lowest.alike alike) (compareLeast.alike alike) (conjunction.alike alike) (disjunction.alike alike)
      (sentinel.alike alike) (last.alike alike)

lemma IsInst.lt_size {t : Ty} {i : Inst ValueId} (isInst : IsInst c v t i) : v < c.defs.size := by
  obtain ⟨name, found⟩ := isInst
  exact IR.Module.lt_size_of_get? found

lemma IsInst.calls {t : Ty} {i : Inst ValueId} (isInst : IsInst c v t i) : callee? c v = calleeOf? i := by
  obtain ⟨name, found⟩ := isInst
  rw [callee?, found]

lemma compareInt_builds (op : Formula.Compare) (x : ValueId) (t : Ty) (n : Int) (s : Draft) :
    Builds E s (compareInt op x t n) fun v c => (s.module.defs.size ≤ v ∧ funcIds c = funcIds s.module) ∧
      ∃ k, IsInt c k t n ∧ IsInst c v .bool (.icmp (.known op) x k) := by
  unfold compareInt
  refine Builds.bind (newInt_builds t n s) fun k s₁ extends₁ h => ?_
  refine (newInst_builds .bool (.icmp (.known op) x k) s₁).mono fun v c extends₂ h' => ?_
  exact ⟨⟨extends₁.size.trans h'.1, h'.2.2.trans h.2.2⟩, k, h.2.1.alike extends₂.alike, h'.2.1⟩

lemma faultCall_builds (func : Text.Bytes) (cond : ValueId) (s : Draft) :
    Builds E s (faultCall func cond) fun v c => s.module.defs.size ≤ v ∧
      ∃ callee, funcIds c = funcIds s.module ++ [callee] ∧ IsSentinel c Sentinel.faultStem callee ∧
        IsInst c v .void (.call ⟨"call", .void, callee, [cond], []⟩) := by
  unfold faultCall call
  refine Builds.bind (declare_builds _ func _ s) fun callee s₁ extends₁ h => ?_
  refine (newInst_builds .void _ s₁).mono fun v c extends₂ h' => ?_
  exact ⟨extends₁.size.trans h'.1, callee, h'.2.2.trans h.2.2, h.2.1.alike extends₂.alike, h'.2.1⟩

lemma compareFault_builds (func : Text.Bytes) (op : Formula.Compare) (y : ValueId) (t : Ty) (n : Int) (s : Draft) :
    Builds E s (do
      let cond ← compareInt op y t n
      pure [cond, ← faultCall func cond]) fun group c =>
      Adds s.module c group ∧
        ∃ k cond callee call, group = [cond, call] ∧ IsInt c k t n ∧ IsInst c cond .bool (.icmp (.known op) y k) ∧
          IsSentinel c Sentinel.faultStem callee ∧ IsInst c call .void (.call ⟨"call", .void, callee, [cond], []⟩) := by
  refine Builds.bind (compareInt_builds op y t n s) fun cond s₁ extends₁ h => ?_
  obtain ⟨⟨above, same⟩, k, number, compare⟩ := h
  refine Builds.bind (faultCall_builds func cond s₁) fun call s₂ extends₂ h => Builds.pure ?_
  obtain ⟨above', callee, declared, sentinel, last⟩ := h
  have compared := compare.alike extends₂.alike
  have calls : funcIds s₂.module = funcIds s.module ++ [cond, call].filterMap (callee? s₂.module) := by
    simp [declared, same, compared.calls, last.calls, calleeOf?]
  have rises : Rises s.module.defs.size s₂.module.defs.size [cond, call] :=
    ⟨above, compare.lt_size.trans_le above', last.lt_size⟩
  exact ⟨⟨rises, calls⟩, k, cond, callee, call, rfl, number.alike extends₂.alike, compared, sentinel, last⟩

lemma guard_signedDivision (func : Text.Bytes) (t : Ty) {bits : Nat} (some : bits ≠ 0) (x y : ValueId) :
    guard func (.signedDivision t bits x y) = (do
      let isZero ← compareInt .eq y t 0
      let minusOne ← compareInt .eq y t (-1)
      let least ← compareInt .eq x t (-twoPow (bits - 1))
      let both ← newInst .bool (.arith .and [] minusOne least)
      let either ← newInst .bool (.arith .or [] isZero both)
      pure [isZero, minusOne, least, both, either, ← faultCall func either]) :=
  if_neg some

/-- There is no least number of no bits. -/
def Hazard.Signless (h : Hazard) : Prop :=
  ∃ t x y, h = .signedDivision t 0 x y

lemma guard_builds (func : Text.Bytes) (h : Hazard) (s : Draft) :
    Builds (fun _ => h.Signless) s (guard func h) fun group c =>
      Adds s.module c group ∧ Guards c h group := by
  cases h with
  | overflow op withSign t x y =>
    unfold guard call
    refine Builds.bind (declare_builds _ func _ s) fun callee s₁ extends₁ declared => ?_
    refine Builds.bind (newInt_builds (.int 8) op.code s₁) fun code s₂ extends₂ number => ?_
    refine Builds.bind (newInst_builds .void _ s₂) fun k s₃ extends₃ last => Builds.pure ⟨?_, ?_⟩
    · refine ⟨⟨(extends₁.trans extends₂).size.trans last.1, last.2.1.lt_size⟩, ?_⟩
      simp [last.2.2, number.2.2, declared.2.2, last.2.1.calls, calleeOf?]
    · have sentinel := declared.2.1.alike (extends₂.trans extends₃).alike
      exact .overflow sentinel (number.2.1.alike extends₃.alike) last.2.1
  | shift t bits y =>
    refine (compareFault_builds func .uge y t bits s).mono fun group c _ h => ?_
    obtain ⟨adds, k, cond, callee, call, rfl, number, compare, sentinel, last⟩ := h
    exact ⟨adds, .shift number compare sentinel last⟩
  | zeroDivisor t y =>
    refine (compareFault_builds func .eq y t 0 s).mono fun group c _ h => ?_
    obtain ⟨adds, k, cond, callee, call, rfl, number, compare, sentinel, last⟩ := h
    exact ⟨adds, .zeroDivisor number compare sentinel last⟩
  | signedDivision t bits x y =>
    by_cases none : bits = 0
    · subst none
      exact Builds.throw ⟨t, x, y, rfl⟩
    rw [guard_signedDivision func t none]
    refine Builds.bind (compareInt_builds .eq y t 0 s) fun isZero s₁ extends₁ h => ?_
    obtain ⟨⟨above₁, same₁⟩, n, zero, compareZero⟩ := h
    refine Builds.bind (compareInt_builds .eq y t (-1) s₁) fun minusOne s₂ extends₂ h => ?_
    obtain ⟨⟨above₂, same₂⟩, k, one, compareOne⟩ := h
    refine Builds.bind (compareInt_builds .eq x t (-twoPow (bits - 1)) s₂) fun least s₃ extends₃ h => ?_
    obtain ⟨⟨above₃, same₃⟩, l, lowest, compareLeast⟩ := h
    refine Builds.bind (newInst_builds .bool (.arith .and [] minusOne least) s₃) fun both s₄ extends₄ h => ?_
    obtain ⟨above₄, conjunction, same₄⟩ := h
    refine Builds.bind (newInst_builds .bool (.arith .or [] isZero both) s₄) fun either s₅ extends₅ h => ?_
    obtain ⟨above₅, disjunction, same₅⟩ := h
    refine Builds.bind (faultCall_builds func either s₅) fun call s₆ extends₆ h => Builds.pure ?_
    obtain ⟨above₆, callee, declared, sentinel, last⟩ := h
    have rises : Rises s.module.defs.size s₆.module.defs.size [isZero, minusOne, least, both, either, call] :=
      ⟨above₁, compareZero.lt_size.trans_le above₂, compareOne.lt_size.trans_le above₃,
        compareLeast.lt_size.trans_le above₄, conjunction.lt_size.trans_le above₅,
        disjunction.lt_size.trans_le above₆, last.lt_size⟩
    have from₅ := extends₆.alike
    have from₄ := extends₅.alike.trans from₅
    have from₃ := extends₄.alike.trans from₄
    have from₂ := extends₃.alike.trans from₃
    have from₁ := extends₂.alike.trans from₂
    have calls : funcIds s₆.module =
        funcIds s.module ++ [isZero, minusOne, least, both, either, call].filterMap (callee? s₆.module) := by
      simp [declared, calleeOf?, same₁, same₂, same₃, same₄, same₅, (compareZero.alike from₁).calls,
        (compareOne.alike from₂).calls, (compareLeast.alike from₃).calls, (conjunction.alike from₄).calls,
        (disjunction.alike from₅).calls, last.calls]
    exact ⟨⟨rises, calls⟩, .signedDivision (zero.alike from₁) (compareZero.alike from₁) (one.alike from₂)
      (compareOne.alike from₂) (lowest.alike from₃) (compareLeast.alike from₃) (conjunction.alike from₄)
      (disjunction.alike from₅) sentinel last⟩

/-! ## Calls of sentinels -/

lemma plain_of_underscore {name : Text.Bytes} (begins : name.head? = some 95) : Name.plain (.named name) = name := by
  cases name with
  | nil => cases begins
  | cons b bs =>
    cases begins
    rfl

lemma IsSentinel.calleeName {stem : String} (isSentinel : IsSentinel c stem v)
    (known : stem ∈ [Sentinel.overflowStem, Sentinel.faultStem]) : utf8 stem <+: Sentinel.calleeName c v := by
  obtain ⟨name, type, found, begins⟩ := isSentinel
  obtain ⟨underscore, shorter⟩ : (utf8 (stem ++ ".")).head? = some 95 ∧ utf8 stem <+: utf8 (stem ++ ".") := by
    simp only [mem_cons, not_mem_nil, or_false] at known
    rcases known with rfl | rfl <;> decide +kernel
  have head : name.head? = some 95 := by
    obtain ⟨rest, rfl⟩ := begins
    rw [head?_append, underscore]
    rfl
  rw [Sentinel.calleeName, found]
  show utf8 stem <+: Name.plain (.named name)
  rw [plain_of_underscore head]
  exact shorter.trans begins

lemma kindOf?_isSome {stem : String} {name : Text.Bytes} (known : stem ∈ [Sentinel.overflowStem, Sentinel.faultStem])
    (begins : utf8 stem <+: name) : (Sentinel.kindOf? name).isSome = true := by
  unfold Sentinel.kindOf?
  simp only [ isPrefixOf_iff_prefix]
  simp only [mem_cons, not_mem_nil, or_false] at known
  rcases known with rfl | rfl
  · rw [if_pos begins]
    rfl
  · rw [if_pos begins]
    split <;> rfl

lemma isCall_of_sentinel {stem : String} {callee call : ValueId} {args : List ValueId}
    (sentinel : IsSentinel c stem callee) (known : stem ∈ [Sentinel.overflowStem, Sentinel.faultStem])
    (last : IsInst c call .void (.call ⟨"call", .void, callee, args, []⟩)) : Sentinel.isCall c call = true := by
  obtain ⟨name, found⟩ := last
  rw [Sentinel.isCall, found]
  exact kindOf?_isSome known (sentinel.calleeName known)

lemma isCall_of_inst {t : Ty} {i : Inst ValueId} (isInst : IsInst c v t i) (other : ∀ call, i ≠ .call call) :
    Sentinel.isCall c v = false := by
  obtain ⟨name, found⟩ := isInst
  unfold Sentinel.isCall
  rw [found]
  split
  next call _ same => cases same; exact absurd rfl (other call)
  next => rfl

/-- The last of the guards, and no other one, is a call of a sentinel. -/
lemma Guards.ends {h : Hazard} {group : List ValueId} (guards : Guards c h group) :
    ∃ before call, group = before ++ [call] ∧ Sentinel.isCall c call = true ∧
      ∀ u ∈ before, Sentinel.isCall c u = false := by
  cases guards with
  | overflow sentinel number last => exact ⟨[], _, rfl, isCall_of_sentinel sentinel (by simp) last, by simp⟩
  | shift number compare sentinel last =>
    refine ⟨[_], _, rfl, isCall_of_sentinel sentinel (by simp) last, ?_⟩
    simpa using isCall_of_inst compare (by simp)
  | zeroDivisor number compare sentinel last =>
    refine ⟨[_], _, rfl, isCall_of_sentinel sentinel (by simp) last, ?_⟩
    simpa using isCall_of_inst compare (by simp)
  | signedDivision zero compareZero one compareOne lowest compareLeast conjunction disjunction sentinel last =>
    refine ⟨[_, _, _, _, _], _, rfl, isCall_of_sentinel sentinel (by simp) last, ?_⟩
    simpa using ⟨isCall_of_inst compareZero (by simp), isCall_of_inst compareOne (by simp),
      isCall_of_inst compareLeast (by simp), isCall_of_inst conjunction (by simp),
      isCall_of_inst disjunction (by simp)⟩

end Faultline.Instrument
