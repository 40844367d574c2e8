/-
# Proofs.Instrument.Routes — control goes through guards as it went without them

Guards are put between the instructions of blocks. The blocks of a function, their
terminators and the edges between them stay (`exists_outlined`), and the phis at the
head of a block are still there. So wherever control can get to in a function, it can
get to with the guards, too (`Follows.reaches`), and blocks stay typed
(`Follows.blockTyped`).
-/
import Faultline.Proofs.Analysis.Run
import Faultline.Proofs.Instrument.Faults

namespace Faultline.Flow.Graph

open IR (Module Func Block ValueId)

variable {m c : Module} {f f' : Func} {g g' h : Graph}

/-! ## Graphs -/

def SameEnds (f f' : Func) : Prop :=
  List.Forall₂ (fun b b' : Block => b'.id = b.id ∧ b'.term = b.term) f.blocks.toList f'.blocks.toList

lemma SameEnds.size_eq (ends : SameEnds f f') : f'.blocks.size = f.blocks.size := by
  have same := List.Forall₂.length_eq ends
  rw [Array.length_toList, Array.length_toList] at same
  exact same.symm

lemma SameEnds.block (ends : SameEnds f f') (i : Nat) :
    (f'.blocks.getD i default).id = (f.blocks.getD i default).id ∧
      (f'.blocks.getD i default).term = (f.blocks.getD i default).term := by
  rw [Array.getD_eq_getD_getElem?, Array.getD_eq_getD_getElem?]
  by_cases below : i < f.blocks.size
  · have below' : i < f'.blocks.size := ends.size_eq ▸ below
    rw [Array.getElem?_eq_getElem below, Array.getElem?_eq_getElem below']
    exact List.Forall₂.get ends below below'
  · rw [Array.getElem?_eq_none (Nat.le_of_not_lt below),
      Array.getElem?_eq_none (ends.size_eq ▸ Nat.le_of_not_lt below)]
    exact ⟨rfl, rfl⟩

lemma SameEnds.numbering_eq (ends : SameEnds f f') : numbering f' = numbering f := by
  unfold numbering
  rw [ends.size_eq]
  congr 1
  funext index i
  rw [(ends.block i).1]

/-- The graphs have the same blocks in the same places, up to their instructions, and the same edges. -/
structure Outlines (g g' : Graph) : Prop where
  ends : SameEnds g.func g'.func
  index : g'.index = g.index
  succs : g'.succs = g.succs

lemma addBlock_outlined {i : Nat} (targets : targets c (g'.block i) = targets m (g.block i)) (outlines : Outlines g g')
    (run : addBlock m g i = .ok h) : ∃ h', addBlock c g' i = .ok h' ∧ Outlines h h' ∧ h.func = g.func ∧ h'.func = g'.func := by
  obtain ⟨js, known, rfl⟩ := addBlock_ok.1 run
  rw [← targets, ← outlines.index] at known
  obtain ⟨func, index, succs⟩ := foldl_addUser (m := m) i ((g.block i).insts.toList ++ (g.block i).term.toList) g
  obtain ⟨func', index', succs'⟩ := foldl_addUser (m := c) i ((g'.block i).insts.toList ++ (g'.block i).term.toList) g'
  refine ⟨_, addBlock_ok.2 ⟨js, known, rfl⟩, ⟨?_, ?_, ?_⟩, func, func'⟩
  · simpa only [func, func'] using outlines.ends
  · exact index'.trans (outlines.index.trans index.symm)
  · show g'.succs.push _ = g.succs.push _
    rw [outlines.succs]

/-- **The graph does not depend on the instructions**: a function whose blocks have the names, the ends and the targets
of those of another one has a graph with the same edges. -/
theorem exists_outlined (ends : SameEnds f f')
    (targets : ∀ i < f.blocks.size, targets c (f'.blocks.getD i default) = targets m (f.blocks.getD i default))
    (run : ofFunc m f = .ok g) : ∃ g', ofFunc c f' = .ok g' ∧ g'.func = f' ∧ Outlines g g' := by
  have folded : ∀ (is : List Nat) (g g' h : Graph), (∀ i ∈ is, i < f.blocks.size) → g.func = f → g'.func = f' →
      Outlines g g' → is.foldlM (addBlock m) g = .ok h →
        ∃ h', is.foldlM (addBlock c) g' = .ok h' ∧ h'.func = f' ∧ Outlines h h' := by
    intro is
    induction is with
    | nil =>
      intro g g' h _ func func' outlines run
      cases run
      exact ⟨g', rfl, func', outlines⟩
    | cons i is ih =>
      intro g g' h below func func' outlines run
      rw [List.foldlM_cons, Instrument.bind_eq_ok_iff] at run
      obtain ⟨g₁, first, rest⟩ := run
      have here := targets i (below i List.mem_cons_self)
      rw [← func, ← func'] at here
      obtain ⟨g₁', first', outlines, kept, kept'⟩ := addBlock_outlined here outlines first
      obtain ⟨h', rest', func', outlines⟩ := ih g₁ g₁' h (fun j mem => below j (List.mem_cons_of_mem i mem))
        (kept.trans func) (kept'.trans func') outlines rest
      exact ⟨h', by rw [List.foldlM_cons, Instrument.bind_eq_ok_iff]; exact ⟨g₁', first', rest'⟩, func', outlines⟩
  unfold ofFunc at run ⊢
  dsimp only at run ⊢
  obtain ⟨h, laid, same⟩ := Instrument.bind_eq_ok_iff.1 run
  cases same
  have start : Outlines { func := f, index := numbering f } { func := f', index := numbering f' } :=
    ⟨ends, ends.numbering_eq, rfl⟩
  obtain ⟨h', laid', func', outlines⟩ := folded _ _ _ h (fun i mem => List.mem_range.1 mem) rfl rfl start laid
  unfold numbering at laid'
  rw [ends.size_eq] at laid' ⊢
  exact ⟨_, Instrument.bind_eq_ok_iff.2 ⟨h', laid', rfl⟩, func', ⟨outlines.ends, outlines.index, outlines.succs⟩⟩

end Faultline.Flow.Graph

namespace Faultline.Analysis

open IR (Module ValueId Ty Def Inst Term)

variable {s s' : Setting} {v x : ValueId} {val : ValueId → Nat} {source : ValueId}

/-! ## Typed blocks -/

namespace Mirrors

variable (mirrors : Mirrors s s')

include mirrors

lemma isUndef (inside : x < s.module.defs.size) : isUndef s'.module x = isUndef s.module x := by
  obtain ⟨d, name, here, there⟩ := mirrors.alike.renamed inside
  unfold Analysis.isUndef
  rw [here, there]
  cases d <;> rfl

lemma termTyped {t : Term ValueId} (typed : TermTyped s t) : TermTyped s' t := by
  cases t with
  | condBr c t e => exact ⟨mirrors.proper typed.1, mirrors.hasBits typed.2⟩
  | switch x d cases =>
    refine ⟨mirrors.proper typed.1, fun arm mem => ?_⟩
    obtain ⟨proper, has⟩ := typed.2 arm mem
    rw [mirrors.bits_eq typed.1.hasBits.lt_size]
    exact ⟨mirrors.proper proper, mirrors.hasBits has⟩
  | ret | br | invoke | callbr | other => trivial

lemma phiTyped (inside : v < s.module.defs.size) (typed : PhiTyped s v) : PhiTyped s' v := by
  intro name t flags type incoming trail found wide
  obtain ⟨d, name', here, there⟩ := mirrors.alike.renamed inside
  cases d with
  | inst n t₀ i trail₀ =>
    cases there.symm.trans found
    rw [mirrors.width?] at wide
    obtain ⟨proper, all⟩ := typed n t flags type incoming trail here wide
    refine ⟨mirrors.proper proper, fun pair mem defined => ?_⟩
    have read : pair.1 < s.module.defs.size := mirrors.closed.reads v _ here pair.1 (List.mem_map_of_mem mem)
    rw [mirrors.isUndef read] at defined
    obtain ⟨proper', has⟩ := all pair mem defined
    rw [mirrors.bits_eq inside]
    exact ⟨mirrors.proper proper', mirrors.hasBits has⟩
  | param | term | block | const | global | func | attributed => cases there.symm.trans found

end Mirrors

lemma phisHold_of_not_phi (other : isPhi s.module v = false) (vs : List ValueId) : PhisHold s val source (v :: vs) := by
  unfold PhisHold
  split
  next found =>
    unfold isPhi at other
    rw [found] at other
    cases other
  next => trivial

lemma phiTyped_of_not_phi (other : isPhi s.module v = false) : PhiTyped s v := by
  intro name t flags type incoming trail found
  unfold isPhi at other
  rw [found] at other
  cases other

end Faultline.Analysis

namespace Faultline.Instrument

open IR (Module ValueId Func Def Inst Ty)
open Faultline.Flow (Graph)
open Analysis (Proper Mirrors BlockTyped TermTyped PhiTyped Goes PhisHold Passes Reaches isPhi terminatorOf?)

variable {m c : Module} {g : Graph} {v : ValueId} {h : Hazard} {group vs ws : List ValueId} {s s' : Setting} {a b i : Nat}
  {val val' : ValueId → Nat} {source : ValueId}

lemma Guards.isPhi_eq (guards : Guards c h group) : ∀ u ∈ group, isPhi c u = false := by
  have plain {u : ValueId} {t : Ty} {i : Inst ValueId} (isInst : IsInst c u t i)
      (other : ∀ flags type incoming, i ≠ .phi flags type incoming) : isPhi c u = false := by
    obtain ⟨name, found⟩ := isInst
    unfold isPhi
    rw [found]
    cases i with
    | phi flags type incoming => exact absurd rfl (other flags type incoming)
    | _ => rfl
  cases guards with
  | overflow sentinel number last => simp [plain last]
  | shift number compare sentinel last => simp [plain compare, plain last]
  | zeroDivisor number compare sentinel last => simp [plain compare, plain last]
  | signedDivision zero compareZero one compareOne lowest compareLeast conjunction disjunction sentinel last =>
    simp [plain compareZero, plain compareOne, plain compareLeast, plain conjunction, plain disjunction, plain last]

lemma Before.isPhi_eq (before : Before m c g v group) : ∀ u ∈ group, isPhi c u = false := by
  cases before with
  | none free => simp
  | guards due hazard guards last others fresh => exact guards.isPhi_eq

/-! ## Functions with guards -/

/-- The second setting is that of the same function, with its guards. -/
structure Follows (s s' : Setting) : Prop where
  mirrors : Mirrors s s'
  outlines : s.graph.Outlines s'.graph
  cut : s'.cut = s.cut
  weaves : ∀ i < s.graph.size, Weaves s.module s'.module s.graph (s.graph.block i) (s'.graph.block i)
  inside : ∀ i, ∀ v ∈ (s.graph.block i).term, v < s.module.defs.size

namespace Follows

variable (follows : Follows s s')

include follows

lemma block (i : Nat) : (s'.graph.block i).id = (s.graph.block i).id ∧ (s'.graph.block i).term = (s.graph.block i).term :=
  follows.outlines.ends.block i

lemma terminatorOf?_eq (i : Nat) : terminatorOf? s' i = terminatorOf? s i := by
  unfold terminatorOf?
  rw [(follows.block i).2]
  rcases term : (s.graph.block i).term with _ | v
  · rfl
  · obtain ⟨d, name, here, there⟩ := follows.mirrors.alike.renamed (follows.inside i v term)
    rw [Option.bind_some, Option.bind_some, here, there]
    cases d <;> rfl

lemma blockTyped (below : i < s.graph.size) (typed : BlockTyped s i) : BlockTyped s' i := by
  refine ⟨fun t term => ?_, fun v mem => ?_⟩
  · rw [follows.terminatorOf?_eq] at term
    exact follows.mirrors.termTyped (typed.term t term)
  · have weaves := follows.weaves i below
    rcases weaves.woven.mem_cases mem with old | ⟨u, -, group, before, new⟩
    · exact follows.mirrors.phiTyped (weaves.inside old) (typed.phis v old)
    · exact Analysis.phiTyped_of_not_phi (before.isPhi_eq v new)

/-! ## Routes -/

variable (same : ∀ v, Proper s v → val' v = val v)

include same

/-- The phis at the head of a block come before all guards. -/
lemma phisHold (typed : ∀ v ∈ vs, PhiTyped s v) (inside : ∀ v ∈ vs, v < s.module.defs.size)
    (woven : Woven (Before s.module s'.module g) vs ws) (holds : PhisHold s val source vs) : PhisHold s' val' source ws := by
  induction woven with
  | nil => trivial
  | @cons v group vs ws first rest ih =>
    cases group with
    | cons u group => exact Analysis.phisHold_of_not_phi (first.isPhi_eq u List.mem_cons_self) _
    | nil =>
      obtain ⟨d, name, here, there⟩ := follows.mirrors.alike.renamed (inside v List.mem_cons_self)
      unfold PhisHold at holds
      show PhisHold s' val' source (v :: ws)
      unfold PhisHold
      rw [here] at holds
      rw [there]
      cases d with
      | inst n t i trail =>
        cases i with
        | phi flags type incoming =>
          dsimp only [Def.setName] at holds ⊢
          rw [follows.mirrors.width?]
          refine ⟨fun wide pair mem from_ defined => ?_, ih (fun u mem => typed u (List.mem_cons_of_mem v mem))
            (fun u mem => inside u (List.mem_cons_of_mem v mem)) holds.2⟩
          have read : pair.1 < s.module.defs.size :=
            follows.mirrors.closed.reads v _ here pair.1 (List.mem_map_of_mem mem)
          rw [follows.mirrors.isUndef read] at defined
          obtain ⟨proper, all⟩ := typed v List.mem_cons_self n t flags type incoming trail here wide
          rw [same v proper, same pair.1 (all pair mem defined).1]
          exact holds.1 wide pair mem from_ defined
        | _ => trivial
      | param | term | block | const | global | func | attributed => trivial

lemma goes (typed : ∀ t, terminatorOf? s a = some t → TermTyped s t) (goes : Goes s val a b) : Goes s' val' a b := by
  unfold Goes at goes ⊢
  rw [follows.terminatorOf?_eq, (follows.block b).1]
  rcases term : terminatorOf? s a with _ | t
  · trivial
  · rw [term] at goes
    have typed := typed t term
    cases t with
    | condBr c t e =>
      dsimp only at goes ⊢
      rw [same c typed.1]
      exact goes
    | switch x d cases =>
      dsimp only at goes ⊢
      rw [same x typed.1]
      refine goes.imp (fun ⟨arm, mem, dest, value⟩ => ⟨arm, mem, dest, ?_⟩) fun ⟨dest, others⟩ => ⟨dest, fun arm mem => ?_⟩
      · rw [same arm.1 (typed.2 arm mem).1]
        exact value
      · rw [same arm.1 (typed.2 arm mem).1]
        exact others arm mem
    | ret | br | invoke | callbr | other => trivial

variable {fn : Func} (graph : Graph.ofFunc s.module fn = .ok s.graph) (typed : ∀ i < s.graph.size, BlockTyped s i)

include graph typed

lemma passes (passes : Passes s val a b) : Passes s' val' a b := by
  have above : a < s.graph.size := Graph.lt_of_mem_succsOf graph passes.edge
  have below : b < s.graph.size := Graph.target_lt_of_mem_succsOf graph passes.edge
  have weaves := follows.weaves b below
  refine ⟨?_, ?_, follows.goes same (typed a above).term passes.goes, ?_⟩
  · rw [Graph.succsOf, follows.outlines.succs]
    exact passes.edge
  · rw [follows.cut]
    exact passes.uncut
  · unfold Analysis.Assigns
    rw [(follows.block a).1]
    exact follows.phisHold same (typed b below).phis (fun v mem => weaves.inside mem) weaves.woven passes.assigns

/-- Wherever control can get to, it can get to with the guards. -/
lemma reaches (reaches : Reaches s val b) : Reaches s' val' b := by
  induction reaches with
  | entry => exact .entry
  | pass _ inner passes ih => exact ih.pass inner (follows.passes same graph typed passes)

end Follows

end Faultline.Instrument
