/-
# Proofs.Instrument.Numbering — instrumented modules have their numbers

Before a module is written its unnamed values are numbered. `InOrder` says of a list
of values that they have the numbers that are due. Numbering them then changes
nothing (`numberFrom_of_inOrder`), and where it changes nothing they were in order
(`inOrder_of_numberFrom`).

Instrumentation numbers each function anew when its guards are in place, and the
guards of one function are no locals of another one. So a module that is written as
it is stays so (`Tidy`).
-/
import Faultline.Proofs.Instrument.Insertion

namespace Faultline.IR

open List Array Option

variable {defs defs' defs'' : Array (Def ValueId)} {v w : ValueId} {vs : List ValueId} {next : Nat} {n : Name}
  {d : Def ValueId} {name? : Def ValueId → Option Name}

/-! ## Names -/

lemma Def.setName_name? (named : d.name? = some n) : d.setName n = d := by
  cases d <;> simp_all [Def.name?, Def.setName]

lemma Def.name?_setName (named : d.name?.isSome) : (d.setName n).name? = some n := by
  cases d <;> simp_all [Def.name?, Def.setName]

/-- A part of the named values, those of some constructors. -/
structure Naming (name? : Def ValueId → Option Name) : Prop where
  name : ∀ {d n}, name? d = some n → d.name? = some n
  set : ∀ {d n} n', name? d = some n → name? (d.setName n') = some n'

lemma naming_local : Naming Def.local? := by
  refine ⟨fun {d n} named => ?_, fun {d n} n' named => ?_⟩
  · cases d with
    | inst m t i trail => cases t <;> simp_all [Def.local?, Def.name?]
    | term m t i trail => cases t <;> simp_all [Def.local?, Def.name?]
    | param | block | const | global | func | attributed => simp_all [Def.local?, Def.name?]
  · cases d with
    | inst m t i trail => cases t <;> simp_all [Def.local?, Def.setName]
    | term m t i trail => cases t <;> simp_all [Def.local?, Def.setName]
    | param | block | const | global | func | attributed => simp_all [Def.local?, Def.setName]

lemma naming_global : Naming Def.global? := by
  refine ⟨fun {d n} named => ?_, fun {d n} n' named => ?_⟩
  · cases d <;> simp_all [Def.global?, Def.name?]
  · cases d <;> simp_all [Def.global?, Def.setName]

/-! ## What numbering changes -/

/-- Nothing has changed but that values without a number got one. -/
def Settles (defs defs' : Array (Def ValueId)) : Prop :=
  ∀ v : ValueId, defs'[v]? = defs[v]? ∨ defs[v]?.bind Def.name? = some (.number 0) ∧
    ∃ k : Int, k ≠ 0 ∧ defs'[v]?.bind Def.name? = some (.number k)

lemma Settles.refl (defs : Array (Def ValueId)) : Settles defs defs :=
  fun _ => .inl rfl

lemma Settles.trans (first : Settles defs defs') (second : Settles defs' defs'') : Settles defs defs'' := by
  intro v
  rcases first v with same | ⟨zero, k, other, number⟩ <;> rcases second v with same' | ⟨zero', k', other', number'⟩
  · exact .inl (same'.trans same)
  · exact .inr ⟨same ▸ zero', k', other', number'⟩
  · exact .inr ⟨zero, k, other, same' ▸ number⟩
  · cases number.symm.trans zero'
    exact absurd rfl other

lemma Settles.antisymm (there : Settles defs defs') (back : Settles defs' defs) : defs' = defs := by
  refine Array.ext_getElem? fun v => ?_
  rcases there v with same | ⟨zero, k, other, number⟩
  · exact same
  · rcases back v with same | ⟨zero', -⟩
    · exact same.symm
    · cases number.symm.trans zero'
      exact absurd rfl other

lemma setNumber_same (named : defs[v]?.bind Def.name? = some (.number next)) : setNumber defs v next = defs := by
  obtain ⟨d, found, named⟩ := bind_eq_some_iff.1 named
  refine Array.ext_getElem? fun w => ?_
  unfold setNumber
  rw [Array.getElem?_modify]
  split
  next same =>
    subst same
    rw [found, map_some, Def.setName_name? named]
  next => rfl

lemma setNumber_settles {got : Int} (named : defs[v]?.bind Def.name? = some (.number got)) (due : got = 0 ∨ got = next) :
    Settles defs (setNumber defs v next) := by
  by_cases same : got = next
  · rw [setNumber_same (same ▸ named)]
    exact .refl defs
  · intro w
    have zero := due.resolve_right same
    subst zero
    unfold setNumber
    rw [Array.getElem?_modify]
    split
    next here =>
      subst here
      obtain ⟨d, found, name⟩ := bind_eq_some_iff.1 named
      refine .inr ⟨named, next, Ne.symm same, ?_⟩
      rw [found, map_some, bind_some, Def.name?_setName (by simp [name])]
    next => exact .inl rfl

lemma Naming.bind (naming : Naming name?) (named : defs[v]?.bind name? = some n) : defs[v]?.bind Def.name? = some n := by
  obtain ⟨d, found, name⟩ := bind_eq_some_iff.1 named
  rw [found]
  exact naming.name name

lemma Naming.setNumber (naming : Naming name?) (named : defs[v]?.bind name? = some n) :
    (setNumber defs v next)[v]?.bind name? = some (.number next) := by
  obtain ⟨d, found, name⟩ := bind_eq_some_iff.1 named
  unfold IR.setNumber
  rw [Array.getElem?_modify, if_pos rfl, found]
  exact naming.set _ name

lemma numberFrom_settles (naming : Naming name?) (defs : Array (Def ValueId)) (vs : List ValueId) (next : Nat) :
    Settles defs (numberFrom name? defs vs next).2 := by
  induction vs generalizing defs next with
  | nil => exact .refl defs
  | cons v vs ih =>
    unfold numberFrom
    split
    next got named =>
      split
      · exact .refl defs
      next due =>
        have due : got = 0 ∨ got = next := by tauto
        exact (setNumber_settles (naming.bind named) due).trans (ih _ _)
    next => exact ih defs next

lemma settles_of_numberFrom (naming : Naming name?) {e : Option NumberingError}
    (run : numberFrom name? defs vs next = (e, defs')) : Settles defs defs' := by
  have settles := numberFrom_settles naming defs vs next
  rwa [run] at settles

lemma numberFrom_frame (other : w ∉ vs) : (numberFrom name? defs vs next).2[w]? = defs[w]? := by
  induction vs generalizing defs next with
  | nil => rfl
  | cons v vs ih =>
    have here : v ≠ w := fun same => other (same ▸ mem_cons_self)
    have later : w ∉ vs := fun mem => other (mem_cons_of_mem v mem)
    unfold numberFrom
    split
    · split
      · rfl
      · rw [ih later, setNumber, Array.getElem?_modify, if_neg here]
    · exact ih later

lemma unnumber_frame (other : w ∉ vs) : (unnumber name? defs vs)[w]? = defs[w]? := by
  induction vs generalizing defs with
  | nil => rfl
  | cons v vs ih =>
    have here : v ≠ w := fun same => other (same ▸ mem_cons_self)
    have later : w ∉ vs := fun mem => other (mem_cons_of_mem v mem)
    unfold unnumber
    split
    · rw [ih later, setNumber, Array.getElem?_modify, if_neg here]
    · exact ih later

/-! ## Values in order -/

def InOrder (name? : Def ValueId → Option Name) (defs : Array (Def ValueId)) : List ValueId → Nat → Prop
  | [], _ => True
  | v :: vs, next =>
    match defs[v]?.bind name? with
    | some (.number k) => k = next ∧ InOrder name? defs vs (next + 1)
    | _ => InOrder name? defs vs next

lemma InOrder.congr (inOrder : InOrder name? defs vs next)
    (same : ∀ v ∈ vs, defs'[v]?.bind name? = defs[v]?.bind name?) : InOrder name? defs' vs next := by
  induction vs generalizing next with
  | nil => trivial
  | cons v vs ih =>
    have later := fun w mem => same w (mem_cons_of_mem v mem)
    unfold InOrder at inOrder ⊢
    rw [same v mem_cons_self]
    split
    next k named =>
      rw [named] at inOrder
      exact ⟨inOrder.1, ih inOrder.2 later⟩
    next named =>
      refine ih ?_ later
      split at inOrder
      next k number => exact absurd number (named k)
      next => exact inOrder

lemma inOrder_of_named (named : ∀ v ∈ vs, ∀ k, defs[v]?.bind name? ≠ some (.number k)) : InOrder name? defs vs next := by
  induction vs with
  | nil => trivial
  | cons v vs ih =>
    unfold InOrder
    split
    next k number => exact absurd number (named v mem_cons_self k)
    next => exact ih fun w mem => named w (mem_cons_of_mem v mem)

lemma InOrder.append {us : List ValueId} (first : InOrder name? defs us next)
    (named : ∀ v ∈ vs, ∀ k, defs[v]?.bind name? ≠ some (.number k)) : InOrder name? defs (us ++ vs) next := by
  induction us generalizing next with
  | nil => exact inOrder_of_named named
  | cons u us ih =>
    rw [cons_append]
    unfold InOrder at first ⊢
    split
    next k number =>
      rw [number] at first
      exact ⟨first.1, ih first.2⟩
    next other =>
      split at first
      next k number => exact absurd number (other k)
      next => exact ih first

lemma numberFrom_of_inOrder (naming : Naming name?) (inOrder : InOrder name? defs vs next) :
    numberFrom name? defs vs next = (none, defs) := by
  induction vs generalizing next with
  | nil => rfl
  | cons v vs ih =>
    unfold InOrder at inOrder
    unfold numberFrom
    split
    next k named =>
      rw [named] at inOrder
      obtain ⟨rfl, rest⟩ := inOrder
      rw [if_neg (by simp), setNumber_same (naming.bind named)]
      exact ih rest
    next other =>
      split at inOrder
      next k number => exact absurd number (other k)
      next => exact ih inOrder

lemma inOrder_of_numberFrom (naming : Naming name?) (stable : numberFrom name? defs vs next = (none, defs)) :
    InOrder name? defs vs next := by
  induction vs generalizing next with
  | nil => trivial
  | cons v vs ih =>
    unfold numberFrom at stable
    unfold InOrder
    split
    next got named =>
      rw [named] at stable
      dsimp only at stable
      split at stable
      · cases stable
      next due =>
        have due : got = 0 ∨ got = next := by tauto
        have back : Settles (setNumber defs v next) defs := settles_of_numberFrom naming stable
        have same := (setNumber_settles (naming.bind named) due).antisymm back
        have number : (setNumber defs v next)[v]?.bind name? = some (.number next) := naming.setNumber named
        rw [same] at stable number
        cases named.symm.trans number
        exact ⟨rfl, ih stable⟩
    next other =>
      split at stable
      next k number => exact absurd number (other k)
      next => exact ih stable

lemma numberFrom_inOrder (distinct : vs.Nodup) (unnumbered : ∀ v ∈ vs, Unnumbered defs v) :
    InOrder Def.local? (numberFrom Def.local? defs vs next).2 vs next := by
  induction vs generalizing defs next with
  | nil => trivial
  | cons v vs ih =>
    obtain ⟨once, distinct⟩ := nodup_cons.1 distinct
    have later := fun w mem => unnumbered w (mem_cons_of_mem v mem)
    unfold numberFrom
    split
    next k named =>
      have zero : k = 0 := unnumbered v mem_cons_self k named
      rw [if_neg (by simp [zero])]
      unfold InOrder
      rw [numberFrom_frame once, naming_local.setNumber named]
      refine ⟨rfl, ih distinct fun w mem k unnamed => later w mem k ?_⟩
      have other : v ≠ w := fun same => once (same ▸ mem)
      rwa [setNumber, Array.getElem?_modify, if_neg other] at unnamed
    next other =>
      unfold InOrder
      rw [numberFrom_frame once]
      split
      next k number => exact absurd number (other k)
      next => exact ih distinct later

namespace Module

variable {m c : Module} {f : Func}

lemma numberGlobals_of_inOrder (inOrder : InOrder Def.global? m.defs m.globalIds 0) : m.numberGlobals = .ok m := by
  unfold numberGlobals
  rw [numberFrom_of_inOrder naming_global inOrder]

def numberStep (m : Module) (f : Func) : Except NumberingError Module :=
  match m.number f with
  | (none, m) => .ok m
  | (some e, _) => .error e

lemma numberAll_eq (m : Module) : m.numberAll = m.funcs.toList.foldlM numberStep m := rfl

lemma numberAll_of_inOrder (inOrder : ∀ f ∈ m.funcs, InOrder Def.local? m.defs f.locals 0) : m.numberAll = .ok m := by
  have all : ∀ fs : List Func, (∀ f ∈ fs, InOrder Def.local? m.defs f.locals 0) → fs.foldlM numberStep m = .ok m := by
    intro fs
    induction fs with
    | nil => exact fun _ => rfl
    | cons f fs ih =>
      intro each
      have here : m.numberStep f = .ok m := by
        unfold numberStep number
        rw [numberFrom_of_inOrder naming_local (each f mem_cons_self)]
      rw [foldlM_cons, here]
      exact ih fun f mem => each f (mem_cons_of_mem _ mem)
  exact all _ fun f mem => inOrder f (mem_toList_iff.1 mem)

lemma numberStep_ok (run : m.numberStep f = .ok c) :
    numberFrom Def.local? m.defs f.locals 0 = (none, c.defs) ∧ c = { m with defs := c.defs } := by
  unfold numberStep number at run
  rcases numbered : numberFrom Def.local? m.defs f.locals 0 with ⟨_ | e, defs⟩ <;> rw [numbered] at run
  · cases run
    exact ⟨rfl, rfl⟩
  · cases run

lemma foldlM_numberStep {fs : List Func} (run : fs.foldlM numberStep m = .ok c) :
    Settles m.defs c.defs ∧ c = { m with defs := c.defs } := by
  induction fs generalizing m with
  | nil =>
    cases run
    exact ⟨.refl _, rfl⟩
  | cons f fs ih =>
    rw [foldlM_cons] at run
    obtain ⟨c₁, first, rest⟩ := Instrument.bind_eq_ok_iff.1 run
    obtain ⟨numbered, same⟩ := numberStep_ok first
    obtain ⟨settles, same'⟩ := ih rest
    have settles₁ : Settles m.defs c₁.defs := settles_of_numberFrom naming_local numbered
    exact ⟨settles₁.trans settles, by rw [same', same]⟩

lemma inOrder_of_foldlM {fs : List Func} (run : fs.foldlM numberStep m = .ok m) :
    ∀ f ∈ fs, InOrder Def.local? m.defs f.locals 0 := by
  induction fs with
  | nil => simp
  | cons f fs ih =>
    rw [foldlM_cons] at run
    obtain ⟨c, first, rest⟩ := Instrument.bind_eq_ok_iff.1 run
    obtain ⟨numbered, same⟩ := numberStep_ok first
    have settles : Settles m.defs c.defs := settles_of_numberFrom naming_local numbered
    have unchanged := settles.antisymm (foldlM_numberStep rest).1
    rw [unchanged] at numbered same
    subst same
    intro f' mem
    obtain rfl | mem := mem_cons.1 mem
    · exact inOrder_of_numberFrom naming_local numbered
    · exact ih rest f' mem

lemma inOrder_of_text {src : String} (written : m.text = some (src, m)) :
    InOrder Def.global? m.defs m.globalIds 0 ∧ (∀ f ∈ m.funcs, InOrder Def.local? m.defs f.locals 0) ∧
      m.numberedText = .ok src := by
  unfold text at written
  obtain ⟨c, globals, written⟩ := bind_eq_some_iff.1 written
  obtain ⟨c', locals, written⟩ := bind_eq_some_iff.1 written
  obtain ⟨t, told, same⟩ := bind_eq_some_iff.1 written
  cases same
  have numbered : numberFrom Def.global? m.defs m.globalIds 0 = (none, c.defs) ∧ c = { m with defs := c.defs } := by
    unfold numberGlobals at globals
    rcases numbered : numberFrom Def.global? m.defs m.globalIds 0 with ⟨_ | e, defs⟩ <;> rw [numbered] at globals
    · cases globals
      exact ⟨rfl, rfl⟩
    · cases globals
  obtain ⟨numbered, same⟩ := numbered
  have locals : c.funcs.toList.foldlM numberStep c = .ok m := by
    rw [← numberAll_eq]
    rcases all : c.numberAll with e | c'
    · rw [all] at locals
      cases locals
    · rw [all] at locals
      cases locals
      rfl
  have settles : Settles m.defs c.defs := settles_of_numberFrom naming_global numbered
  have unchanged := settles.antisymm (foldlM_numberStep locals).1
  rw [unchanged] at numbered same
  subst same
  refine ⟨inOrder_of_numberFrom naming_global numbered, fun f mem => ?_, ?_⟩
  · exact inOrder_of_foldlM locals f (mem_toList_iff.2 mem)
  · rcases text : m.numberedText with e | t'
    · rw [text] at told
      cases told
    · rw [text] at told
      cases told
      rfl

lemma text_of_inOrder (globals : InOrder Def.global? m.defs m.globalIds 0)
    (locals : ∀ f ∈ m.funcs, InOrder Def.local? m.defs f.locals 0) :
    m.text = m.numberedText.toOption.map fun t => (t, m) := by
  have all := numberAll_of_inOrder locals
  unfold text
  rw [numberGlobals_of_inOrder globals]
  simp only [Except.toOption, bind_eq_bind, bind_some, all]
  rcases m.numberedText with e | t <;> rfl

end Module

lemma Module.renumber_frame {m : Module} {f : Func} (other : v ∉ f.locals) : (m.renumber f).2.get? v = m.get? v :=
  (numberFrom_frame other).trans (unnumber_frame other)

lemma Module.renumber_inOrder (m : Module) {f : Func} (distinct : f.locals.Nodup) :
    InOrder Def.local? (m.renumber f).2.defs f.locals 0 :=
  numberFrom_inOrder distinct fun _ mem => unnumber_unnumbered (.inl mem)

end Faultline.IR

namespace Faultline.Instrument

open IR (Module ValueId Func Block Def InOrder)
open Faultline.Flow (Graph)
open List

variable {m c : Module} {f f' : Func} {i j : Nat} {p p' : Progress} {v : ValueId}

/-! ## Locals -/

lemma locals_apart (distinct : (m.funcs.toList.flatMap Func.locals).Nodup) (found : m.funcs[i]? = some f)
    (found' : m.funcs[j]? = some f') (other : i ≠ j) (mem : v ∈ f.locals) : v ∉ f'.locals := by
  have pairs := (nodup_flatMap.1 distinct).2
  rw [← Array.getElem?_toList] at found found'
  obtain ⟨below, rfl⟩ := List.getElem?_eq_some_iff.1 found
  obtain ⟨below', rfl⟩ := List.getElem?_eq_some_iff.1 found'
  intro mem'
  rcases Nat.lt_or_gt_of_ne other with less | greater
  · exact pairwise_iff_getElem.1 pairs i j below below' less mem mem'
  · exact pairwise_iff_getElem.1 pairs j i below' below greater mem' mem

lemma nodup_of_distinct (distinct : (m.funcs.toList.flatMap Func.locals).Nodup) (listed : f ∈ m.funcs) :
    f.locals.Nodup :=
  (nodup_flatMap.1 distinct).1 f (Array.mem_toList_iff.2 listed)

lemma mem_locals {g : Graph} {bs : List Block} (closed : m.Closed) (listed : f ∈ m.funcs)
    (done : Forall₂ (Weaves m c g) f.blocks.toList bs) (mem : v ∈ f.params.map IR.Param.id ++ bs.flatMap blockLocals) :
    v ∈ f.locals ∨ v ∈ (bs.flatMap blockLocals).filter (m.defs.size ≤ ·) := by
  rcases mem_append.1 mem with param | mem
  · exact .inl (mem_append_left _ param)
  · by_cases old : v < m.defs.size
    · have blocks := Weaves.all_old_locals done fun b mem v entry => blockLocals_lt closed listed mem entry
      have kept : v ∈ f.blocks.toList.flatMap blockLocals := blocks ▸ mem_filter.2 ⟨mem, by simpa using old⟩
      exact .inl (mem_append_right _ kept)
    · exact .inr (mem_filter.2 ⟨mem, by simpa using old⟩)

lemma Finished.mem_locals (finished : Finished m c f f') (closed : m.Closed) (listed : f ∈ m.funcs) (mem : v ∈ f'.locals)
    (old : v < m.defs.size) : v ∈ f.locals := by
  obtain ⟨same, g, -, weaves⟩ := finished
  rw [same] at mem
  refine (Instrument.mem_locals closed listed weaves mem).resolve_right fun new => ?_
  exact absurd old (by simpa using (mem_filter.1 new).2)

lemma Stepped.others {g : Graph} {bs : List Block} {t : InsertTally} {d : Draft} (stepped : Stepped m i f p p' g bs t d)
    (reached : Reached m i p) (below : j < m.funcs.size) (other : j ≠ i) :
    p'.draft.module.funcs[j]? = p.draft.module.funcs[j]? := by
  obtain ⟨f₂, earlier, -⟩ := reached.layout.funcs j _ (Array.getElem?_eq_getElem below)
  rw [stepped.funcs, Array.getElem?_setIfInBounds_ne (Ne.symm other), stepped.wove.extends_.func? earlier, earlier]

/-- No function of the module lists a value twice. -/
def Once (m c : Module) : Prop :=
  ∀ i < m.funcs.size, ∀ f', c.funcs[i]? = some f' → f'.locals.Nodup

lemma Once.step (once : Once m p.draft.module) (closed : m.Closed)
    (distinct : (m.funcs.toList.flatMap Func.locals).Nodup) (reached : Reached m i p) (found : m.funcs[i]? = some f)
    (run : function i p = (.ok (), p')) : Once m p'.draft.module := by
  have listed : f ∈ m.funcs := Array.mem_of_getElem? found
  obtain ⟨g, bs, t, d, stepped⟩ := reached.stepped closed found run
  obtain ⟨done, adds, -⟩ := stepped.wove.done t rfl
  intro j below f' there
  by_cases same : j = i
  · subst same
    cases stepped.mine.symm.trans there
    exact nodup_locals closed listed (nodup_of_distinct distinct listed) done adds.rises
  · exact once j below f' ((stepped.others reached below same).symm.trans there)

lemma ofModule_once {tally : InsertTally} (closed : m.Closed) (distinct : (m.funcs.toList.flatMap Func.locals).Nodup)
    (done : (ofModule m).result = .ok tally) : Once m (ofModule m).module := by
  have start : Once m m := fun i _ f' there => nodup_of_distinct distinct (Array.mem_of_getElem? there)
  have kept : Kept m fun _ p => Once m p.draft.module :=
    ⟨start, fun _ once _ _ => once, fun reached once found run => once.step closed distinct reached found run⟩
  obtain ⟨p, same, -, once⟩ := ofModule_invariant closed kept done
  exact same ▸ once

/-- The functions before a position, and those without a body, have their numbers. -/
structure Tidy (m : Module) (k : Nat) (c : Module) : Prop where
  inside : ∀ i f', i < m.funcs.size → c.funcs[i]? = some f' → ∀ v ∈ f'.locals, v < c.defs.size
  order : ∀ i f f', m.funcs[i]? = some f → c.funcs[i]? = some f' → i < k ∨ f.blocks = #[] →
    InOrder Def.local? c.defs f'.locals 0

lemma Tidy.skip (tidy : Tidy m i c) (found : m.funcs[i]? = some f) (empty : f.blocks = #[]) : Tidy m (i + 1) c := by
  refine ⟨tidy.inside, fun j f₁ f' found' there covered => tidy.order j f₁ f' found' there ?_⟩
  rcases covered with less | none
  · rcases Nat.lt_succ_iff_lt_or_eq.1 less with less | rfl
    · exact .inl less
    · cases found.symm.trans found'
      exact .inr empty
  · exact .inr none

lemma Tidy.step (closed : m.Closed) (distinct : (m.funcs.toList.flatMap Func.locals).Nodup) (reached : Reached m i p)
    (tidy : Tidy m i p.draft.module) (found : m.funcs[i]? = some f) (run : function i p = (.ok (), p')) :
    Tidy m (i + 1) p'.draft.module := by
  have listed : f ∈ m.funcs := Array.mem_of_getElem? found
  obtain ⟨g, bs, t, d, stepped⟩ := reached.stepped closed found run
  obtain ⟨done, adds, -⟩ := stepped.wove.done t rfl
  have extends_ := stepped.wove.extends_
  have frame : ∀ v, v ∉ ({ f with blocks := bs.toArray } : Func).locals → p'.draft.module.get? v = d.module.get? v := by
    intro v other
    rw [stepped.numbered, Module.renumber_frame other]
    rfl
  have own := (replace d.module i f bs).renumber_inOrder
    (nodup_locals closed listed (nodup_of_distinct distinct listed) done adds.rises)
  rw [← stepped.numbered] at own
  refine ⟨fun j f' below there v mem => ?_, fun j f₁ f' found' there covered => ?_⟩
  · rw [stepped.size]
    by_cases same : j = i
    · subst same
      cases stepped.mine.symm.trans there
      rcases mem_locals closed listed done mem with old | new
      · exact (closed.locals f listed v old).trans_le (reached.layout.alike.size.trans extends_.size)
      · exact (adds.rises.mem new).2
    · exact (tidy.inside j f' below ((stepped.others reached below same).symm.trans there) v mem).trans_le extends_.size
  · by_cases same : j = i
    · subst same
      cases stepped.mine.symm.trans there
      exact own
    · have below : j < m.funcs.size := (Array.getElem?_eq_some_iff.1 found').1
      have earlier := (stepped.others reached below same).symm.trans there
      have covered : j < i ∨ f₁.blocks = #[] := covered.imp_left fun less => by omega
      refine (tidy.order j f₁ f' found' earlier covered).congr fun v mem => ?_
      have inside := tidy.inside j f' below earlier v mem
      -- no local of another function is renumbered: the old ones are apart, and the added ones are new
      have other : v ∉ ({ f with blocks := bs.toArray } : Func).locals := by
        intro mine
        rcases mem_locals closed listed done mine with old | new
        · refine locals_apart distinct found found' (Ne.symm same) old ?_
          have old := closed.locals f listed v old
          obtain ⟨f₂, there', rel⟩ := reached.layout.funcs j f₁ found'
          cases earlier.symm.trans there'
          split at rel
          · exact rel.mem_locals closed (Array.mem_of_getElem? found') mem old
          · exact rel ▸ mem
        · exact absurd inside (Nat.not_lt.2 (adds.rises.mem new).1)
      show (p'.draft.module.get? v).bind _ = (p.draft.module.get? v).bind _
      rw [frame v other, extends_.values v inside]

end Faultline.Instrument
