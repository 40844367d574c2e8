/-
# Proofs.Twin.Module — modules that read alike

Two modules are twins when a one-to-one matching of their values carries one over
into the other, as far as the analyses look. This is how a module comes back from
its text: its table is then in another order, and an integer that stood in two
places has become two. So integers that are only computed with need not be matched,
only equal (`Module.Like`).

Everything the analyses read off a value is the same for its twin, and the graphs of
twin functions are alike (`ofFunc_alongside`).
-/
import Faultline.Check.Module
import Faultline.Proofs.Abreast
import Faultline.Proofs.Flow.BackEdge

namespace Faultline.IR

open List Analysis

variable {R L : ValueId → ValueId → Prop}

/-! ## Definitions -/

/-- Instructions with operands that match by `R`; what is only computed with may match by `L`. -/
inductive Inst.Twin (R L : ValueId → ValueId → Prop) : Inst ValueId → Inst ValueId → Prop where
  | arith {x x' y y' : ValueId} (op : Formula.Arith) (flags : List String) (first : L x x') (second : L y y') :
      Twin R L (.arith op flags x y) (.arith op flags x' y')
  | icmp {x x' y y' : ValueId} (pred : Pred) (first : L x x') (second : L y y') :
      Twin R L (.icmp pred x y) (.icmp pred x' y')
  | gep {base base' : ValueId} {indices indices' : List ValueId} (inbounds : Bool) (elem : Ty)
      (baseMatch : R base base') (indexMatch : Forall₂ R indices indices') :
      Twin R L (.gep inbounds elem base indices) (.gep inbounds elem base' indices')
  | cast {x x' : ValueId} (op : Cast) (target : Ty) (operand : R x x') :
      Twin R L (.cast op x target) (.cast op x' target)
  | select {c c' x x' y y' : ValueId} (flags : List String) (cond : R c c') (onTrue : R x x') (onFalse : R y y') :
      Twin R L (.select flags c x y) (.select flags c' x' y')
  | phi {incoming incoming' : List (ValueId × ValueId)} (flags : List String) (type : Ty)
      (ways : Forall₂ (fun p p' => R p.1 p'.1 ∧ R p.2 p'.2) incoming incoming') :
      Twin R L (.phi flags type incoming) (.phi flags type incoming')
  | call {c c' : Call ValueId} (callee : R c.callee c'.callee) (args : Forall₂ L c.args c'.args)
      (single : c.args.length = 1 → Forall₂ R c.args c'.args) : Twin R L (.call c) (.call c')
  | extractValue (x x' : ValueId) (path : List Nat) : Twin R L (.extractValue x path) (.extractValue x' path)
  | other (pure : Bool) (pieces pieces' : List (Piece ValueId)) : Twin R L (.other pure pieces) (.other pure pieces')

inductive Term.Twin (R : ValueId → ValueId → Prop) : Term ValueId → Term ValueId → Prop where
  | ret (x x' : Option ValueId) : Twin R (.ret x) (.ret x')
  | br {b b' : ValueId} (target : R b b') : Twin R (.br b) (.br b')
  | condBr {c c' t t' e e' : ValueId} (cond : R c c') (onTrue : R t t') (onFalse : R e e') :
      Twin R (.condBr c t e) (.condBr c' t' e')
  | switch {x x' d d' : ValueId} {cases cases' : List (ValueId × ValueId)} (value : R x x') (default : R d d')
      (ways : Forall₂ (fun p p' => R p.1 p'.1 ∧ R p.2 p'.2) cases cases') :
      Twin R (.switch x d cases) (.switch x' d' cases')
  | invoke {n n' u u' : ValueId} (c c' : Call ValueId) (normal : R n n') (unwind : R u u') :
      Twin R (.invoke c n u) (.invoke c' n' u')
  | callbr {n n' : ValueId} {others others' : List ValueId} (c c' : Call ValueId) (normal : R n n')
      (otherMatch : Forall₂ R others others') : Twin R (.callbr c n others) (.callbr c' n' others')
  | other {pieces pieces' : List (Piece ValueId)}
      (targets : Forall₂ R (pieces.filterMap Piece.target?) (pieces'.filterMap Piece.target?)) :
      Twin R (.other pieces) (.other pieces')

inductive Const.Twin (R : ValueId → ValueId → Prop) : Const ValueId → Const ValueId → Prop where
  | int (n : Int) : Twin R (.int n) (.int n)
  | null : Twin R .null .null
  | undef : Twin R .undef .undef
  | gep {base base' : ValueId} {indices indices' : List (Bool × ValueId)} (inbounds : Bool) (elem : Ty)
      (baseMatch : R base base') (indexMatch : Forall₂ R (indices.map Prod.snd) (indices'.map Prod.snd)) :
      Twin R (.gep inbounds elem base indices) (.gep inbounds elem base' indices')
  | other (pieces pieces' : List (Piece ValueId)) : Twin R (.other pieces) (.other pieces')

inductive Def.Twin (R L : ValueId → ValueId → Prop) : Def ValueId → Def ValueId → Prop where
  | param (name : Name) (type : Ty) : Twin R L (.param name type) (.param name type)
  | inst {i i' : Inst ValueId} (name : Name) (type : Ty) (same : Inst.Twin R L i i') (trail trail' : List (Piece ValueId)) :
      Twin R L (.inst name type i trail) (.inst name type i' trail')
  | term {t t' : Term ValueId} (name : Name) (type : Ty) (same : Term.Twin R t t') (trail trail' : List (Piece ValueId)) :
      Twin R L (.term name type t trail) (.term name type t' trail')
  | block (name : Name) : Twin R L (.block name) (.block name)
  | const {c c' : Const ValueId} (type : Ty) (same : Const.Twin R c c') : Twin R L (.const type c) (.const type c')
  | global (name : Name) (type : Ty) : Twin R L (.global name type) (.global name type)
  | func (name : Name) (type : Ty) : Twin R L (.func name type) (.func name type)
  | attributed {x x' : ValueId} (attrs : String) (operand : R x x') : Twin R L (.attributed attrs x) (.attributed attrs x')

structure Block.Twin (R : ValueId → ValueId → Prop) (b b' : Block) : Prop where
  id : R b.id b'.id
  insts : Forall₂ R b.insts.toList b'.insts.toList
  term : Forall₂ R b.term.toList b'.term.toList

structure Func.Twin (R : ValueId → ValueId → Prop) (f f' : Func) : Prop where
  name : f'.name = f.name
  blocks : Forall₂ (Block.Twin R) f.blocks.toList f'.blocks.toList

namespace Module

/-- An integer that is matched with nothing. -/
def Spare (m : Module) (matched : ValueId → Prop) (bits : Nat) (n : Int) (x : ValueId) : Prop :=
  ¬ matched x ∧ ∃ t, m.get? x = some (.const t (.int n)) ∧ m.resolve t = .int bits

/-- The values match, or are equal integers that are matched with nothing. -/
def Like (R : ValueId → ValueId → Prop) (m m' : Module) (x x' : ValueId) : Prop :=
  R x x' ∨ ∃ bits n, m.Spare (fun x => ∃ x', R x x') bits n x ∧ m'.Spare (fun x' => ∃ x, R x x') bits n x'

/-- `R` carries the module over into its twin. -/
structure Twins (R : ValueId → ValueId → Prop) (m m' : Module) : Prop where
  sourceFilename : m'.sourceFilename = m.sourceFilename
  dataLayout : m'.dataLayout = m.dataLayout
  types : m'.types = m.types
  once : ∀ {x x' y y'}, R x x' → R y y' → (x = y ↔ x' = y')
  defs : ∀ {x x'}, R x x' → ∃ d d', m.get? x = some d ∧ m'.get? x' = some d' ∧ d.Twin R (Like R m m') d'
  ident : ∀ {x x'}, R x x' → m'.identText x' = m.identText x
  line : ∀ {x x'}, R x x' → m'.lineText x' = m.lineText x
  funcs : Forall₂ (Func.Twin R) m.funcs.toList m'.funcs.toList

end Module

lemma Def.Twin.plain_eq {d d' : Def ValueId} (same : d.Twin R L d') : Module.typeOf.plain d' = Module.typeOf.plain d := by
  cases same <;> rfl

namespace Module.Twins

variable {m m' : Module} (twins : Twins R m m') {x x' : ValueId}

include twins

lemma resolve_eq (t : Ty) : m'.resolve t = m.resolve t := by
  rw [Module.resolve, Module.resolve, twins.types]

lemma typeOf_eq (same : R x x') : m'.typeOf x' = m.typeOf x := by
  obtain ⟨d, d', found, found', twin⟩ := twins.defs same
  unfold typeOf
  rw [found, found']
  cases twin with
  | attributed attrs operand =>
    obtain ⟨e, e', inner, inner', twin⟩ := twins.defs operand
    simp only [inner, inner', twin.plain_eq]
  | param | inst | term | block | const | global | func => rfl

lemma constIndex_eq (same : R x x') : constIndex m' x' = constIndex m x := by
  obtain ⟨d, d', found, found', twin⟩ := twins.defs same
  unfold constIndex
  rw [found, found']
  cases twin with
  | const t same =>
    cases same with
    | int n => simp only [twins.resolve_eq]
    | null | undef | gep | other => rfl
  | param | inst | term | block | global | func | attributed => rfl

lemma isUndef_eq (same : R x x') : isUndef m' x' = isUndef m x := by
  obtain ⟨d, d', found, found', twin⟩ := twins.defs same
  unfold isUndef
  rw [found, found']
  cases twin with
  | const t same => cases same <;> rfl
  | param | inst | term | block | global | func | attributed => rfl

lemma calleeName_eq (same : R x x') : Sentinel.calleeName m' x' = Sentinel.calleeName m x := by
  obtain ⟨d, d', found, found', twin⟩ := twins.defs same
  unfold Sentinel.calleeName
  rw [found, found']
  cases twin <;> rfl

lemma isCall_eq (same : R x x') : Sentinel.isCall m' x' = Sentinel.isCall m x := by
  obtain ⟨d, d', found, found', twin⟩ := twins.defs same
  unfold Sentinel.isCall
  rw [found, found']
  cases twin with
  | inst name type same =>
    cases same with
    | call callee args => simp only [twins.calleeName_eq callee]
    | arith | icmp | gep | cast | select | phi | extractValue | other => rfl
  | param | term | block | const | global | func | attributed => rfl

lemma blockLabel_eq (same : R x x') : Check.blockLabel m' x' = Check.blockLabel m x := by
  obtain ⟨d, d', found, found', twin⟩ := twins.defs same
  unfold Check.blockLabel
  rw [found, found']
  cases twin <;> rfl

lemma constIndex_eq_of_like (like : Like R m m' x x') : constIndex m' x' = constIndex m x := by
  obtain same | ⟨bits, n, ⟨-, t, found, type⟩, -, t', found', type'⟩ := like
  · exact twins.constIndex_eq same
  · unfold constIndex
    rw [found, found']
    simp only [type, type']

end Module.Twins

end Faultline.IR

namespace Faultline.Flow.Graph

open IR (Module Func Block ValueId)
open List Array

variable {R : ValueId → ValueId → Prop} {m m' : Module} {f f' : Func} {g g' : Graph} {i : Nat} {v v' : ValueId}

/-! ## Graphs -/

lemma succs_twin {t t' : IR.Term ValueId} (same : IR.Term.Twin R t t') : Forall₂ R t.succs t'.succs := by
  cases same with
  | ret => exact .nil
  | br target => exact .cons target .nil
  | condBr _ onTrue onFalse => exact .cons onTrue (.cons onFalse .nil)
  | switch _ default ways =>
    refine .cons default ?_
    rw [forall₂_map_left_iff, forall₂_map_right_iff]
    exact ways.imp fun _ _ h => h.2
  | invoke _ _ normal unwind => exact .cons normal (.cons unwind .nil)
  | callbr _ _ normal others => exact .cons normal others
  | other targets => exact targets

lemma targets_twin (twins : m.Twins R m') {b b' : Block} (same : IR.Block.Twin R b b') :
    Forall₂ R (targets m b) (targets m' b') := by
  unfold targets
  have terms := same.term
  rcases term : b.term with _ | v <;> rcases term' : b'.term with _ | v' <;> rw [term, term'] at terms
  · exact .nil
  · cases terms
  · cases terms
  · obtain ⟨d, d', found, found', twin⟩ := twins.defs (forall₂_cons.1 terms).1
    simp only [Option.bind_some, found, found']
    cases twin with
    | term name type same => exact succs_twin same
    | param | inst | block | const | global | func | attributed => exact .nil

/-- Graphs with matching blocks in the same places and the same edges between them. -/
structure Twins (R : ValueId → ValueId → Prop) (g g' : Graph) : Prop where
  func : IR.Func.Twin R g.func g'.func
  index : ∀ v v', R v v' → g'.index[v']? = g.index[v]?
  ids : ∀ v v', R v v' → g'.id? v' = g.id? v
  numbers : g'.blockOf.size = g.blockOf.size
  succs : g'.succs = g.succs
  preds : g'.preds = g.preds

lemma Twins.size_eq (twins : g.Twins R g') : g'.size = g.size := by
  have same := twins.func.blocks.length_eq
  rw [length_toList, length_toList] at same
  exact same.symm

lemma Twins.block (twins : g.Twins R g') (below : i < g.size) : IR.Block.Twin R (g.block i) (g'.block i) := by
  have below' : i < g'.size := twins.size_eq ▸ below
  have there : (g.block i) = g.func.blocks[i] := by
    rw [Graph.block, getD_eq_getD_getElem?, Array.getElem?_eq_getElem below, Option.getD_some]
  have there' : (g'.block i) = g'.func.blocks[i] := by
    rw [Graph.block, getD_eq_getD_getElem?, Array.getElem?_eq_getElem below', Option.getD_some]
  rw [there, there']
  exact Forall₂.get twins.func.blocks below below'

lemma Twins.predsOf_eq (twins : g.Twins R g') : g'.predsOf = g.predsOf := by
  funext b
  rw [Graph.predsOf, Graph.predsOf, twins.preds]

lemma Twins.backEdges_eq (twins : g.Twins R g') : g'.backEdges = g.backEdges :=
  backEdges_congr twins.size_eq twins.succs

/-- Matching values get one number. -/
lemma insert_twin (twins : m.Twins R m') {index index' : Std.HashMap ValueId Nat}
    (same : ∀ v v', R v v' → index'[v']? = index[v]?) {x x' : ValueId} (here : R x x') (i : Nat) :
    ∀ v v', R v v' → (index'.insert x' i)[v']? = (index.insert x i)[v]? := by
  intro v v' there
  rw [Std.HashMap.getElem?_insert, Std.HashMap.getElem?_insert]
  simp only [beq_iff_eq]
  exact if_congr (twins.once here there).symm rfl (same v v' there)

lemma addUser_twin (twins : m.Twins R m') (b : Nat) (here : R v v') (same : g.Twins R g') :
    (addUser m b g v).Twins R (addUser m' b g' v') := by
  refine ⟨same.func, same.index, ?_, ?_, same.succs, same.preds⟩
  · show ∀ x x', R x x' → (g'.ids.insert v' g'.blockOf.size)[x']? = (g.ids.insert v g.blockOf.size)[x]?
    rw [same.numbers]
    exact insert_twin twins same.ids here _
  · show (g'.blockOf.push b).size = (g.blockOf.push b).size
    rw [size_push, size_push, same.numbers]

lemma addUsers_twin (twins : m.Twins R m') (b : Nat) {vs vs' : List ValueId} (listed : Forall₂ R vs vs')
    (same : g.Twins R g') : (vs.foldl (addUser m b) g).Twins R (vs'.foldl (addUser m' b) g') := by
  induction listed generalizing g g' with
  | nil => exact same
  | cons here _ ih => exact ih (addUser_twin twins b here same)

lemma targetIndex_alongside (m m' : Module) (same : g.Twins R g') (here : R v v') :
    Alongside Eq (targetIndex m g v) (targetIndex m' g' v') := by
  unfold targetIndex
  rw [same.index v v' here]
  rcases g.index[v]? with _ | j
  · trivial
  · rfl

lemma addBlock_alongside (twins : m.Twins R m') (same : g.Twins R g') (below : i < g.size) :
    Alongside (fun h h' => h.Twins R h' ∧ h.size = g.size) (addBlock m g i) (addBlock m' g' i) := by
  have block := same.block below
  have listed : Forall₂ R (entries (g.block i)) (entries (g'.block i)) := rel_append block.insts block.term
  have users := addUsers_twin twins i listed same
  have kept := (foldl_addUser (m := m) i (entries (g.block i)) g).1
  have mapped := Alongside.mapM (P := R) (fun v v' => targetIndex_alongside m m' users) (targets_twin twins block)
  refine mapped.bind fun js js' equal => ?_
  rw [forall₂_eq_eq_eq] at equal
  subst equal
  refine ⟨⟨users.func, users.index, users.ids, users.numbers, ?_, users.preds⟩, ?_⟩
  · exact congrArg (push · _) users.succs
  · exact congrArg (fun f => f.blocks.size) kept

lemma numbering_twin (twins : m.Twins R m') (same : IR.Func.Twin R f f') :
    ∀ v v', R v v' → (numbering f')[v']? = (numbering f)[v]? := by
  have start : Twins R { func := f } { func := f' } :=
    ⟨same, fun _ _ _ => by simp, fun _ _ _ => by simp [id?], rfl, rfl, rfl⟩
  have inserted : ∀ is : List Nat, (∀ i ∈ is, i < f.blocks.size) → ∀ index index' : Std.HashMap ValueId Nat,
      (∀ v v', R v v' → index'[v']? = index[v]?) → ∀ v v', R v v' →
        (is.foldl (fun index i => index.insert (f'.blocks.getD i default).id i) index')[v']? =
          (is.foldl (fun index i => index.insert (f.blocks.getD i default).id i) index)[v]? := by
    intro is
    induction is with
    | nil => exact fun _ _ _ holds => holds
    | cons i is ih =>
      intro below index index' holds
      refine ih (fun j listed => below j (mem_cons_of_mem _ listed)) _ _ (insert_twin twins holds ?_ i)
      exact (start.block (below i mem_cons_self)).id
  unfold numbering
  rw [show f'.blocks.size = f.blocks.size from start.size_eq]
  exact inserted _ (fun i listed => List.mem_range.1 listed) ∅ ∅ fun _ _ _ => by simp

/-- **Twin functions have twin graphs**, or neither has one. -/
theorem ofFunc_alongside (twins : m.Twins R m') (same : IR.Func.Twin R f f') :
    Alongside (Twins R) (ofFunc m f) (ofFunc m' f') := by
  have start : Twins R { func := f, index := numbering f } { func := f', index := numbering f' } :=
    ⟨same, numbering_twin twins same, fun _ _ _ => by simp [id?], rfl, rfl, rfl⟩
  have size : f'.blocks.size = f.blocks.size := start.size_eq
  have listed : Forall₂ (fun i i' => i' = i ∧ i < f.blocks.size) (List.range f.blocks.size)
      (List.range f'.blocks.size) := by
    rw [size, forall₂_same]
    exact fun i mem => ⟨rfl, List.mem_range.1 mem⟩
  have step : ∀ (g g' : Graph) (i i' : Nat), g.Twins R g' ∧ g.size = f.blocks.size → i' = i ∧ i < f.blocks.size →
      Alongside (fun h h' => h.Twins R h' ∧ h.size = f.blocks.size) (addBlock m g i) (addBlock m' g' i') := by
    rintro g g' i _ ⟨same, sizes⟩ ⟨rfl, below⟩
    exact (addBlock_alongside twins same (sizes ▸ below)).mono fun _ _ added => ⟨added.1, added.2.trans sizes⟩
  unfold ofFunc
  refine (Alongside.foldlM step listed ⟨start, rfl⟩).bind fun g g' h => ?_
  exact ⟨h.1.func, h.1.index, h.1.ids, h.1.numbers, h.1.succs, by rw [h.1.succs, size]⟩

end Faultline.Flow.Graph
